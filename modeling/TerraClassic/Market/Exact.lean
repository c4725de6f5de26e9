import TerraClassic.Market.Spread
import Mathlib.Data.Rat.Floor

/-! # Swaps in other arithmetics

    `ComputeInternalSwap`, `ComputeSwap`, `ApplySwapToPool` and the fee of
    `handleSwapRequest`, written over an arbitrary arithmetic: a type of numbers
    with operations that may fail.

    * With the operations of `sdk.Dec` they are the functions of the code
      (`handleSwapRequest_eq`).
    * With those of the rationals they are the exact reading, without rounding and
      without overflow.  There a split offer is never paid more than the whole one
      (`split_never_pays`).
-/

namespace TerraClassic.Market

open SdkError (orPanic orPanic_eq_ok)
open ConstantProduct (quote Fill)

/-! ### One program, several arithmetics -/

/-- The operations a swap uses. -/
structure Arithmetic (α : Type) where
  zero : α
  one : α
  add : α → α → Option α
  sub : α → α → Option α
  mul : α → α → Option α
  quo : α → α → Option α
  string : α → String

/-- `sdk.Dec`. -/
def Arithmetic.dec : Arithmetic Dec :=
  ⟨Dec.zero, Dec.one, Dec.add, Dec.sub, Dec.mul, Dec.quo, Dec.string⟩

/-- The rationals; only a division by zero fails. -/
def Arithmetic.rat : Arithmetic ℚ where
  zero := 0
  one := 1
  add := fun a b => some (a + b)
  sub := fun a b => some (a - b)
  mul := fun a b => some (a * b)
  quo := fun a b => if b = 0 then none else some (a / b)
  string := toString

/-- What a swap reads besides the pool delta: the parameters, the oracle's rates and tobin
    taxes, and `sdk.ValidateDenom`. -/
structure Setting (α : Type) where
  basePool : α
  minStabilitySpread : α
  exchangeRate : Denom → Option α
  tobinTax : Denom → Except MarketError α
  validDenom : Denom → Bool

namespace Arithmetic

variable {α : Type} [LinearOrder α] (A : Arithmetic α) (market : Setting α)

/-- `GetLunaExchangeRate`. -/
def getLunaExchangeRate (denom : Denom) : Option α :=
  if denom = microLunaDenom then some A.one else market.exchangeRate denom

/-- The amount of `NewDecCoinFromDec`. -/
def newDecCoinFromDec (denom : Denom) (amount : α) : Option α :=
  if market.validDenom denom = true ∧ A.zero ≤ amount then some amount else none

/-- `ComputeInternalSwap`: the amount in the ask denom. -/
def computeInternalSwap (offerDenom : Denom) (offer : α) (askDenom : Denom) :
    Except MarketError α :=
  if offerDenom = askDenom then .ok offer
  else
    match A.getLunaExchangeRate market offerDenom with
    | none => .error (.wrap .noEffectivePrice offerDenom)
    | some offerRate =>
      match A.getLunaExchangeRate market askDenom with
      | none => .error (.wrap .noEffectivePrice askDenom)
      | some askRate => do
        let product ← orPanic (A.mul offer askRate)
        let retAmount ← orPanic (A.quo product offerRate)
        if retAmount ≤ A.zero then throw (.wrap .invalidCoins (A.string offer ++ offerDenom))
        orPanic (A.newDecCoinFromDec market askDenom retAmount)

/-- The spread of the constant product. -/
def constantProductSpread (terraPoolDelta : α) (offerIsLuna : Bool) (baseOfferAmount : α) :
    Option α := do
  let cp ← A.mul market.basePool market.basePool
  let terraPool ← A.add market.basePool terraPoolDelta
  let lunaPool ← A.quo cp terraPool
  let offerPool := if offerIsLuna then lunaPool else terraPool
  let askPool := if offerIsLuna then terraPool else lunaPool
  let newOfferPool ← A.add offerPool baseOfferAmount
  let newAskPool ← A.quo cp newOfferPool
  let askBaseAmount ← A.sub askPool newAskPool
  let difference ← A.sub baseOfferAmount askBaseAmount
  let spread ← A.quo difference baseOfferAmount
  return if spread < market.minStabilitySpread then market.minStabilitySpread else spread

/-- `ComputeSwap`: the price in the ask denom, and the spread. -/
def computeSwap (terraPoolDelta : α) (offerDenom : Denom) (offer : α) (askDenom : Denom) :
    Except MarketError (α × α) := do
  if offerDenom = askDenom then throw (.wrap .recursiveSwap askDenom)
  let baseOffer ← A.computeInternalSwap market offerDenom offer microSDRDenom
  let retAmount ← A.computeInternalSwap market microSDRDenom baseOffer askDenom
  if offerDenom ≠ microLunaDenom ∧ askDenom ≠ microLunaDenom then
    let offerTobinTax ← market.tobinTax offerDenom
    let askTobinTax ← market.tobinTax askDenom
    return (retAmount, if offerTobinTax < askTobinTax then askTobinTax else offerTobinTax)
  else
    let spread ← orPanic (A.constantProductSpread market terraPoolDelta
      (offerDenom = microLunaDenom) baseOffer)
    return (retAmount, spread)

/-- The fee of a swap: the spread, if it is positive. -/
def swapFee (askDenom : Denom) (retAmount spread : α) : Option α :=
  if A.zero < spread then do
    let fee ← A.mul spread retAmount
    A.newDecCoinFromDec market askDenom fee
  else A.newDecCoinFromDec market askDenom A.zero

/-- `ApplySwapToPool`: the new pool delta. -/
def applySwapToPool (terraPoolDelta : α) (offerDenom : Denom) (offer : α) (askDenom : Denom)
    (ask : α) : Except MarketError α :=
  if offerDenom ≠ microLunaDenom ∧ askDenom ≠ microLunaDenom then .ok terraPoolDelta
  else if offerDenom ≠ microLunaDenom then do
    let offerBase ← A.computeInternalSwap market offerDenom offer microSDRDenom
    orPanic (A.add terraPoolDelta offerBase)
  else if askDenom ≠ microLunaDenom then do
    let askBase ← A.computeInternalSwap market askDenom ask microSDRDenom
    orPanic (A.sub terraPoolDelta askBase)
  else .ok terraPoolDelta

/-- A swap as priced by `handleSwapRequest`. -/
structure Priced (α : Type) where
  net : α
  fee : α
  terraPoolDelta : α

/-- `handleSwapRequest` up to the bank: the price less the fee, and the new pool delta. -/
def priceSwap (terraPoolDelta : α) (offerDenom : Denom) (offer : α) (askDenom : Denom) :
    Except MarketError (Priced α) := do
  let (retAmount, spread) ← A.computeSwap market terraPoolDelta offerDenom offer askDenom
  let fee ← orPanic (A.swapFee market askDenom retAmount spread)
  let net ← orPanic (A.sub retAmount fee)
  let terraPoolDelta ← A.applySwapToPool market terraPoolDelta offerDenom offer askDenom net
  return ⟨net, fee, terraPoolDelta⟩

end Arithmetic

/-! ### The arithmetic of the code -/

/-- What the code reads, as a setting over `sdk.Dec`. -/
def Keeper.setting (k : Keeper) : Setting Dec where
  basePool := k.params.basePool
  minStabilitySpread := k.params.minStabilitySpread
  exchangeRate := k.oracle.exchangeRates.get
  tobinTax := getTobinTax k.oracle
  validDenom := k.bank.validDenom

theorem newDecCoinFromDec_eq (k : Keeper) (denom : Denom) (amount : Dec) :
    newDecCoinFromDec k denom amount =
      (Arithmetic.dec.newDecCoinFromDec k.setting denom amount).map (⟨denom, ·⟩) := by
  unfold newDecCoinFromDec Arithmetic.newDecCoinFromDec
  by_cases h : k.bank.validDenom denom = true ∧ 0 ≤ amount.i
  · rw [if_pos h, if_pos (show k.setting.validDenom denom = true ∧ Arithmetic.dec.zero ≤ amount
      from h)]
    rfl
  · rw [if_neg h, if_neg (show ¬ (k.setting.validDenom denom = true ∧
      Arithmetic.dec.zero ≤ amount) from h)]
    rfl

theorem orPanic_map {α β : Type} (x : Option α) (f : α → β) :
    (orPanic (x.map f) : Except MarketError β) = (orPanic x).map f := by
  cases x <;> rfl

theorem map_bind_ok {α β γ : Type} (x : Except MarketError α) (f : α → Except MarketError β)
    (g : β → γ) : (x >>= f).map g = x >>= fun a => (f a).map g := by
  cases x <;> rfl

theorem bind_map_ok {α β γ : Type} (x : Except MarketError α) (f : α → β)
    (g : β → Except MarketError γ) : x.map f >>= g = x >>= fun a => g (f a) := by
  cases x <;> rfl

theorem computeInternalSwap_eq (k : Keeper) (offerCoin : DecCoin) (askDenom : Denom) :
    computeInternalSwap k offerCoin askDenom =
      (Arithmetic.dec.computeInternalSwap k.setting offerCoin.denom offerCoin.amount askDenom).map
        (⟨askDenom, ·⟩) := by
  have hrate : ∀ denom, Arithmetic.dec.getLunaExchangeRate k.setting denom =
      getLunaExchangeRate k.oracle denom := fun _ => rfl
  unfold computeInternalSwap Arithmetic.computeInternalSwap
  simp only [hrate]
  by_cases hsame : offerCoin.denom = askDenom
  · rw [if_pos hsame, if_pos hsame, ← hsame]
    rfl
  rw [if_neg hsame, if_neg hsame]
  cases getLunaExchangeRate k.oracle offerCoin.denom with
  | none => rfl
  | some offerRate =>
    cases getLunaExchangeRate k.oracle askDenom with
    | none => rfl
    | some askRate =>
      simp only [map_bind_ok]
      refine bind_congr (fun product => ?_)
      refine bind_congr (fun retAmount => ?_)
      by_cases hle : retAmount ≤ Dec.zero
      · rw [if_pos hle, if_pos (show retAmount ≤ Arithmetic.dec.zero from hle)]
        rfl
      · rw [if_neg hle, if_neg (show ¬ retAmount ≤ Arithmetic.dec.zero from hle),
          newDecCoinFromDec_eq, orPanic_map]

theorem constantProductSpread_eq (k : Keeper) (terraPoolDelta : Dec) (offerIsLuna : Bool)
    (baseOfferAmount : Dec) :
    constantProductSpread k.params terraPoolDelta offerIsLuna baseOfferAmount =
      Arithmetic.dec.constantProductSpread k.setting terraPoolDelta offerIsLuna
        baseOfferAmount := rfl

/-- For a coin with a valid denom and an amount that is not negative. -/
theorem computeSwap_eq (k : Keeper) (s : State) {offerCoin : Coin}
    (hvalid : k.bank.validDenom offerCoin.denom = true ∧ 0 ≤ offerCoin.amount)
    (askDenom : Denom) :
    computeSwap k s offerCoin askDenom =
      (Arithmetic.dec.computeSwap k.setting s.terraPoolDelta offerCoin.denom
        (Dec.ofInt offerCoin.amount) askDenom).map (fun p => (⟨askDenom, p.1⟩, p.2)) := by
  have hcoin : newDecCoinFromCoin k offerCoin =
      some ⟨offerCoin.denom, Dec.ofInt offerCoin.amount⟩ := if_pos hvalid
  unfold computeSwap Arithmetic.computeSwap
  by_cases hsame : offerCoin.denom = askDenom
  · rw [if_pos hsame, if_pos hsame]
    rfl
  rw [if_neg hsame, if_neg hsame, hcoin]
  show (computeInternalSwap k ⟨offerCoin.denom, Dec.ofInt offerCoin.amount⟩ microSDRDenom >>= _) =
    _
  rw [computeInternalSwap_eq, bind_map_ok, map_bind_ok]
  refine bind_congr (fun baseOffer => ?_)
  rw [computeInternalSwap_eq, bind_map_ok, map_bind_ok]
  refine bind_congr (fun retAmount => ?_)
  by_cases hterra : offerCoin.denom ≠ microLunaDenom ∧ askDenom ≠ microLunaDenom
  · rw [if_pos hterra, if_pos hterra]
    simp only [map_bind_ok]
    rfl
  · rw [if_neg hterra, if_neg hterra]
    simp only [map_bind_ok, constantProductSpread_eq]
    rfl

theorem swapFee_eq (k : Keeper) (askDenom : Denom) (retAmount spread : Dec) :
    swapFee k ⟨askDenom, retAmount⟩ spread =
      (Arithmetic.dec.swapFee k.setting askDenom retAmount spread).map (⟨askDenom, ·⟩) := by
  unfold swapFee Arithmetic.swapFee
  by_cases hpos : 0 < spread.i
  · rw [if_pos (show Arithmetic.dec.zero < spread from hpos),
      if_pos (show spread.isPositive = true from decide_eq_true hpos)]
    show (spread.mul retAmount >>= _) = Option.map _ (spread.mul retAmount >>= _)
    cases spread.mul retAmount with
    | none => rfl
    | some fee => exact newDecCoinFromDec_eq k askDenom fee
  · rw [if_neg (show ¬ Arithmetic.dec.zero < spread from hpos),
      if_neg (show ¬ spread.isPositive = true from fun h => hpos (of_decide_eq_true h))]
    exact newDecCoinFromDec_eq k askDenom Dec.zero

theorem applySwapToPool_eq (k : Keeper) (terraPoolDelta : Dec) {offerCoin : Coin}
    (hvalid : k.bank.validDenom offerCoin.denom = true ∧ 0 ≤ offerCoin.amount)
    (askDenom : Denom) (ask : Dec) :
    applySwapToPool k terraPoolDelta offerCoin ⟨askDenom, ask⟩ =
      Arithmetic.dec.applySwapToPool k.setting terraPoolDelta offerCoin.denom
        (Dec.ofInt offerCoin.amount) askDenom ask := by
  have hcoin : newDecCoinFromCoin k offerCoin =
      some ⟨offerCoin.denom, Dec.ofInt offerCoin.amount⟩ := if_pos hvalid
  unfold applySwapToPool Arithmetic.applySwapToPool
  split
  · rfl
  split
  · rw [hcoin]
    show (computeInternalSwap k ⟨offerCoin.denom, Dec.ofInt offerCoin.amount⟩ microSDRDenom >>=
      _) = _
    rw [computeInternalSwap_eq, bind_map_ok]
    rfl
  split
  · rw [computeInternalSwap_eq, bind_map_ok]
    rfl
  · rfl

/-- With the arithmetic of `sdk.Dec` the priced swap is that of the code. -/
theorem handleSwapRequest_eq (k : Keeper) (s : State) (trader receiver : AccAddr)
    {offerCoin : Coin} (hvalid : k.bank.validDenom offerCoin.denom = true ∧ 0 ≤ offerCoin.amount)
    (askDenom : Denom) :
    handleSwapRequest k s trader receiver offerCoin askDenom = (do
      let priced ← Arithmetic.dec.priceSwap k.setting s.terraPoolDelta offerCoin.denom
        (Dec.ofInt offerCoin.amount) askDenom
      let (bank, response) ← settle k s.bank trader receiver offerCoin ⟨askDenom, priced.net⟩
        ⟨askDenom, priced.fee⟩
      return (⟨priced.terraPoolDelta, bank⟩, response)) := by
  unfold handleSwapRequest Arithmetic.priceSwap
  rw [computeSwap_eq k s hvalid, bind_map_ok, bind_assoc]
  refine bind_congr (fun p => ?_)
  simp only [swapFee_eq, orPanic_map, bind_map_ok, applySwapToPool_eq k _ hvalid, bind_assoc]
  rfl

/-! ### The exact reading -/

/-- A denom that trades: it is valid and has a positive rate. -/
structure Trades (market : Setting ℚ) (denom : Denom) (rate : ℚ) : Prop where
  valid : market.validDenom denom = true
  rate_eq : Arithmetic.rat.getLunaExchangeRate market denom = some rate
  rate_pos : 0 < rate

/-- A direction of trade between Terra and Luna, with the rates it uses. -/
structure Direction (market : Setting ℚ) where
  offerDenom : Denom
  askDenom : Denom
  sdrRate : ℚ
  offerRate : ℚ
  askRate : ℚ
  sdr : Trades market microSDRDenom sdrRate
  offer : Trades market offerDenom offerRate
  ask : Trades market askDenom askRate
  luna : offerDenom = microLunaDenom ∧ askDenom ≠ microLunaDenom ∨
    offerDenom ≠ microLunaDenom ∧ askDenom = microLunaDenom

/-- The constant product. -/
def Setting.product (market : Setting ℚ) : ℚ := market.basePool * market.basePool

/-- The share of the price that the minimum spread leaves. -/
def Setting.share (market : Setting ℚ) : ℚ := 1 - market.minStabilitySpread

namespace Direction

variable {market : Setting ℚ} (t : Direction market)

/-- An amount of the offer denom in the base denom. -/
def base (amount : ℚ) : ℚ := amount * t.sdrRate / t.offerRate

/-- The price of one unit of the base denom. -/
def price : ℚ := t.askRate / t.sdrRate

/-- The pool offered to. -/
def offerPool (terraPoolDelta : ℚ) : ℚ :=
  if t.offerDenom = microLunaDenom then market.product / (market.basePool + terraPoolDelta)
  else market.basePool + terraPoolDelta

theorem price_pos : 0 < t.price := div_pos t.ask.rate_pos t.sdr.rate_pos

theorem base_pos {amount : ℚ} (h : 0 < amount) : 0 < t.base amount :=
  div_pos (mul_pos h t.sdr.rate_pos) t.offer.rate_pos

theorem base_add (a b : ℚ) : t.base (a + b) = t.base a + t.base b := by
  unfold base
  ring

end Direction

theorem exact_computeInternalSwap {market : Setting ℚ} {offerDenom askDenom : Denom}
    {offerRate askRate amount : ℚ} (hoffer : Trades market offerDenom offerRate)
    (hask : Trades market askDenom askRate) (hamount : 0 < amount) :
    Arithmetic.rat.computeInternalSwap market offerDenom amount askDenom =
      .ok (amount * askRate / offerRate) := by
  unfold Arithmetic.computeInternalSwap
  by_cases hsame : offerDenom = askDenom
  · have hrates : offerRate = askRate := by
      have h := hoffer.rate_eq
      rw [hsame, hask.rate_eq] at h
      exact (Option.some.inj h).symm
    rw [if_pos hsame, hrates, mul_div_cancel_right₀ _ hask.rate_pos.ne']
  · have hpos : 0 < amount * askRate / offerRate :=
      div_pos (mul_pos hamount hask.rate_pos) hoffer.rate_pos
    have hquo : Arithmetic.rat.quo (amount * askRate) offerRate =
        some (amount * askRate / offerRate) := if_neg hoffer.rate_pos.ne'
    have hcoin : Arithmetic.rat.newDecCoinFromDec market askDenom (amount * askRate / offerRate) =
        some (amount * askRate / offerRate) := if_pos ⟨hask.valid, hpos.le⟩
    rw [if_neg hsame]
    simp only [hoffer.rate_eq, hask.rate_eq]
    show (orPanic (Arithmetic.rat.quo (amount * askRate) offerRate) >>= _) = _
    rw [hquo]
    show (if amount * askRate / offerRate ≤ 0 then _ else _) = _
    rw [if_neg (not_le.mpr hpos), hcoin]
    rfl

/-- The spread before the minimum, in exact arithmetic. -/
def exactSpread (c P x : ℚ) : ℚ := (x - (c / P - c / (P + x))) / x

section
variable {market : Setting ℚ} (t : Direction market) {terraPoolDelta : ℚ}

theorem offerPool_pos (hbase : 0 < market.basePool)
    (hpool : 0 < market.basePool + terraPoolDelta) : 0 < t.offerPool terraPoolDelta := by
  unfold Direction.offerPool Setting.product
  split
  · positivity
  · exact hpool

/-- The pool asked from is the product over the pool offered to, in both directions. -/
theorem exact_spread (hbase : 0 < market.basePool)
    (hpool : 0 < market.basePool + terraPoolDelta) {x : ℚ} (hx : 0 < x) :
    Arithmetic.rat.constantProductSpread market terraPoolDelta
        (t.offerDenom = microLunaDenom) x =
      some (max market.minStabilitySpread
        (exactSpread market.product (t.offerPool terraPoolDelta) x)) := by
  have hofferPool := offerPool_pos t hbase hpool
  have hproduct : 0 < market.product := mul_pos hbase hbase
  have hquo : ∀ a b : ℚ, 0 < b → Arithmetic.rat.quo a b = some (a / b) :=
    fun a b hb => if_neg hb.ne'
  have hofferEq : (if decide (t.offerDenom = microLunaDenom) = true then
      market.product / (market.basePool + terraPoolDelta) else
      market.basePool + terraPoolDelta) = t.offerPool terraPoolDelta := by
    simp only [decide_eq_true_eq]
    rfl
  have haskEq : (if decide (t.offerDenom = microLunaDenom) = true then
      market.basePool + terraPoolDelta else
      market.product / (market.basePool + terraPoolDelta)) =
        market.product / t.offerPool terraPoolDelta := by
    simp only [decide_eq_true_eq]
    unfold Direction.offerPool
    split
    · rw [div_div_cancel₀ hproduct.ne']
    · rfl
  show (Arithmetic.rat.quo market.product (market.basePool + terraPoolDelta) >>= _) = _
  rw [hquo _ _ hpool]
  show (Arithmetic.rat.quo market.product ((if decide (t.offerDenom = microLunaDenom) = true then
      market.product / (market.basePool + terraPoolDelta) else
      market.basePool + terraPoolDelta) + x) >>= _) = _
  rw [hofferEq, hquo _ _ (by linarith)]
  show (Arithmetic.rat.quo (x - ((if decide (t.offerDenom = microLunaDenom) = true then
      market.basePool + terraPoolDelta else
      market.product / (market.basePool + terraPoolDelta)) -
        market.product / (t.offerPool terraPoolDelta + x))) x >>= _) = _
  rw [haskEq, hquo _ _ hx]
  exact congrArg some (ite_lt_eq_max _ _)

/-- What the spread leaves of the offer is the quote of the pool. -/
theorem mul_one_sub_spread {c m P x : ℚ} (hx : 0 < x) :
    x * (1 - max m (exactSpread c P x)) = quote c (1 - m) P x := by
  have hexact : x * (1 - exactSpread c P x) = c / P - c / (P + x) := by
    unfold exactSpread
    rw [mul_sub, mul_div_cancel₀ _ hx.ne']
    ring
  unfold quote
  rcases le_total m (exactSpread c P x) with h | h
  · have hle : c / P - c / (P + x) ≤ (1 - m) * x := by
      rw [← hexact, mul_comm]
      exact mul_le_mul_of_nonneg_right (by linarith) hx.le
    rw [max_eq_right h, hexact, min_eq_right hle]
  · have hle : (1 - m) * x ≤ c / P - c / (P + x) := by
      rw [← hexact, mul_comm]
      exact mul_le_mul_of_nonneg_left (by linarith) hx.le
    rw [max_eq_left h, min_eq_left hle, mul_comm]

/-- The spread of an offer, in exact arithmetic. -/
def Direction.spread (terraPoolDelta amount : ℚ) : ℚ :=
  max market.minStabilitySpread
    (exactSpread market.product (t.offerPool terraPoolDelta) (t.base amount))

/-- What an offer is paid, in the base denom. -/
def Direction.paid (terraPoolDelta amount : ℚ) : ℚ :=
  quote market.product market.share (t.offerPool terraPoolDelta) (t.base amount)

theorem Direction.denoms_ne : t.offerDenom ≠ t.askDenom := by
  rcases t.luna with ⟨hoffer, hask⟩ | ⟨hoffer, hask⟩
  · rw [hoffer]
    exact hask.symm
  · rw [hask]
    exact hoffer

theorem exact_computeSwap (hbase : 0 < market.basePool)
    (hpool : 0 < market.basePool + terraPoolDelta) {amount : ℚ} (hamount : 0 < amount) :
    Arithmetic.rat.computeSwap market terraPoolDelta t.offerDenom amount t.askDenom =
      .ok (t.price * t.base amount, t.spread terraPoolDelta amount) := by
  have hx := t.base_pos hamount
  have hluna : ¬ (t.offerDenom ≠ microLunaDenom ∧ t.askDenom ≠ microLunaDenom) := by
    rintro ⟨hoffer, hask⟩
    rcases t.luna with ⟨h, _⟩ | ⟨_, h⟩
    · exact hoffer h
    · exact hask h
  have hbaseSwap : Arithmetic.rat.computeInternalSwap market t.offerDenom amount microSDRDenom =
      .ok (t.base amount) := exact_computeInternalSwap t.offer t.sdr hamount
  have hret : Arithmetic.rat.computeInternalSwap market microSDRDenom (t.base amount) t.askDenom =
      .ok (t.price * t.base amount) := by
    rw [exact_computeInternalSwap t.sdr t.ask hx]
    congr 1
    unfold Direction.price
    ring
  unfold Arithmetic.computeSwap
  rw [if_neg t.denoms_ne, hbaseSwap]
  show (Arithmetic.rat.computeInternalSwap market microSDRDenom (t.base amount) t.askDenom >>= _) =
    _
  rw [hret]
  show (if _ then _ else orPanic (Arithmetic.rat.constantProductSpread market terraPoolDelta
    (t.offerDenom = microLunaDenom) (t.base amount)) >>= _) = _
  rw [if_neg hluna, exact_spread t hbase hpool hx]
  rfl

/-- The price less the spread. -/
theorem exact_net {amount : ℚ} (hamount : 0 < amount) :
    t.price * t.base amount - t.spread terraPoolDelta amount * (t.price * t.base amount) =
      t.price * t.paid terraPoolDelta amount := by
  unfold Direction.paid Setting.share
  rw [← mul_one_sub_spread (t.base_pos hamount)]
  unfold Direction.spread
  ring

/-- A spread that is not negative is charged in full. -/
theorem exact_swapFee {ret spread : ℚ} (hret : 0 ≤ ret) (hspread : 0 ≤ spread) :
    Arithmetic.rat.swapFee market t.askDenom ret spread = some (spread * ret) := by
  unfold Arithmetic.swapFee
  by_cases hpos : 0 < spread
  · rw [if_pos (show Arithmetic.rat.zero < spread from hpos)]
    exact if_pos ⟨t.ask.valid, mul_nonneg hspread hret⟩
  · have hzero : spread = 0 := le_antisymm (not_lt.mp hpos) hspread
    rw [if_neg (show ¬ Arithmetic.rat.zero < spread from hpos), hzero, zero_mul]
    exact if_pos ⟨t.ask.valid, le_rfl⟩

/-- A priced swap is that of the pool, followed by `ApplySwapToPool`. -/
theorem exact_priceSwap (hbase : 0 < market.basePool)
    (hpool : 0 < market.basePool + terraPoolDelta) (hmin : 0 ≤ market.minStabilitySpread)
    {amount : ℚ} (hamount : 0 < amount) :
    Arithmetic.rat.priceSwap market terraPoolDelta t.offerDenom amount t.askDenom =
      (Arithmetic.rat.applySwapToPool market terraPoolDelta t.offerDenom amount t.askDenom
        (t.price * t.paid terraPoolDelta amount)).map (fun delta =>
          ⟨t.price * t.paid terraPoolDelta amount,
            t.spread terraPoolDelta amount * (t.price * t.base amount), delta⟩) := by
  have hret : 0 ≤ t.price * t.base amount :=
    (mul_pos t.price_pos (t.base_pos hamount)).le
  have hspread : 0 ≤ t.spread terraPoolDelta amount := hmin.trans (le_max_left _ _)
  unfold Arithmetic.priceSwap
  rw [exact_computeSwap t hbase hpool hamount]
  show (orPanic (Arithmetic.rat.swapFee market t.askDenom (t.price * t.base amount)
    (t.spread terraPoolDelta amount)) >>= _) = _
  rw [exact_swapFee t hret hspread]
  show (Arithmetic.rat.applySwapToPool market terraPoolDelta t.offerDenom amount t.askDenom
    (t.price * t.base amount - t.spread terraPoolDelta amount * (t.price * t.base amount)) >>=
      fun delta => Except.ok (Arithmetic.Priced.mk (t.price * t.base amount -
        t.spread terraPoolDelta amount * (t.price * t.base amount)) _ delta)) = _
  rw [exact_net t hamount]
  cases Arithmetic.rat.applySwapToPool market terraPoolDelta t.offerDenom amount t.askDenom
    (t.price * t.paid terraPoolDelta amount) <;> rfl

/-! ### One offer -/

/-- An internal swap of nothing is refused. -/
theorem exact_computeInternalSwap_zero {offerDenom askDenom : Denom} {offerRate askRate : ℚ}
    (hoffer : Trades market offerDenom offerRate) (hask : Trades market askDenom askRate)
    (hne : offerDenom ≠ askDenom) :
    ∃ err, Arithmetic.rat.computeInternalSwap market offerDenom 0 askDenom = .error err := by
  cases h : Arithmetic.rat.computeInternalSwap market offerDenom 0 askDenom with
  | error err => exact ⟨err, rfl⟩
  | ok ret =>
    unfold Arithmetic.computeInternalSwap at h
    rw [if_neg hne] at h
    simp only [hoffer.rate_eq, hask.rate_eq] at h
    obtain ⟨product, hproduct, h⟩ := Run.bind_eq_ok.mp h
    obtain ⟨amount, hamount, h⟩ := Run.bind_eq_ok.mp h
    have hproduct : some (0 * askRate) = some product := orPanic_eq_ok.mp hproduct
    have hamount : (if offerRate = 0 then none else some (product / offerRate)) = some amount :=
      orPanic_eq_ok.mp hamount
    rw [if_neg hoffer.rate_pos.ne', ← Option.some.inj hproduct, zero_mul, zero_div] at hamount
    rw [← Option.some.inj hamount] at h
    cases h

theorem exact_computeInternalSwap_eq {offerDenom askDenom : Denom}
    {offerRate askRate amount ret : ℚ} (hoffer : Trades market offerDenom offerRate)
    (hask : Trades market askDenom askRate) (hamount : 0 ≤ amount)
    (h : Arithmetic.rat.computeInternalSwap market offerDenom amount askDenom = .ok ret) :
    ret = amount * askRate / offerRate := by
  rcases hamount.lt_or_eq with hpos | rfl
  · rw [exact_computeInternalSwap hoffer hask hpos] at h
    exact (Except.ok.inj h).symm
  rw [zero_mul, zero_div]
  by_cases hsame : offerDenom = askDenom
  · unfold Arithmetic.computeInternalSwap at h
    rw [if_pos hsame] at h
    exact (Except.ok.inj h).symm
  · obtain ⟨err, herr⟩ := exact_computeInternalSwap_zero hoffer hask hsame
    rw [herr] at h
    cases h

/-- Terra for Luna: the pool delta grows by the offer. -/
theorem exact_applySwapToPool_terra (hoffer : t.offerDenom ≠ microLunaDenom) {amount : ℚ}
    (hamount : 0 < amount) (ask : ℚ) :
    Arithmetic.rat.applySwapToPool market terraPoolDelta t.offerDenom amount t.askDenom ask =
      .ok (terraPoolDelta + t.base amount) := by
  have hask : t.askDenom = microLunaDenom := by
    rcases t.luna with ⟨h, _⟩ | ⟨_, h⟩
    · exact absurd h hoffer
    · exact h
  unfold Arithmetic.applySwapToPool
  rw [if_neg (fun h => h.2 hask), if_pos hoffer, exact_computeInternalSwap t.offer t.sdr hamount]
  rfl

/-- Luna for Terra: what is paid is taken from the pool delta. -/
theorem exact_applySwapToPool_luna (hoffer : t.offerDenom = microLunaDenom) (amount : ℚ) {n : ℚ}
    (hn : 0 ≤ n) :
    (0 < n → Arithmetic.rat.applySwapToPool market terraPoolDelta t.offerDenom amount t.askDenom
      (t.price * n) = .ok (terraPoolDelta - n)) ∧
    ∀ delta, Arithmetic.rat.applySwapToPool market terraPoolDelta t.offerDenom amount t.askDenom
      (t.price * n) = .ok delta → delta = terraPoolDelta - n := by
  have hask : t.askDenom ≠ microLunaDenom := by
    rcases t.luna with ⟨_, h⟩ | ⟨h, _⟩
    · exact h
    · exact absurd hoffer h
  have hback : t.price * n * t.sdrRate / t.askRate = n := by
    have hsdr := t.sdr.rate_pos.ne'
    have haskRate := t.ask.rate_pos.ne'
    unfold Direction.price
    field_simp
  unfold Arithmetic.applySwapToPool
  rw [if_neg (fun h => h.1 hoffer), if_neg (fun h => h hoffer), if_pos hask]
  constructor
  · intro hpos
    rw [exact_computeInternalSwap t.ask t.sdr (mul_pos t.price_pos hpos), hback]
    rfl
  · intro delta h
    obtain ⟨askBase, hbase, h⟩ := Run.bind_eq_ok.mp h
    rw [exact_computeInternalSwap_eq t.ask t.sdr (mul_nonneg t.price_pos.le hn) hbase, hback] at h
    exact (Except.ok.inj h).symm

section
variable (hbase : 0 < market.basePool) (hpool : 0 < market.basePool + terraPoolDelta)
  (hmin : 0 ≤ market.minStabilitySpread)
include hbase hpool hmin

/-- A swap that goes through pays the quote and fills the pool. -/
theorem priceSwap_fill (hmax : market.minStabilitySpread ≤ 1) {amount : ℚ} (hamount : 0 < amount)
    {priced : Arithmetic.Priced ℚ}
    (h : Arithmetic.rat.priceSwap market terraPoolDelta t.offerDenom amount t.askDenom =
      .ok priced) :
    priced.net = t.price * t.paid terraPoolDelta amount ∧
      0 < market.basePool + priced.terraPoolDelta ∧
      Fill market.product market.share (t.offerPool terraPoolDelta) (t.base amount)
        (t.paid terraPoolDelta amount) (t.offerPool priced.terraPoolDelta) := by
  have hx := t.base_pos hamount
  have hP := offerPool_pos t hbase hpool
  have hproduct : 0 < market.product := mul_pos hbase hbase
  have hn : 0 ≤ t.paid terraPoolDelta amount :=
    ConstantProduct.quote_nonneg hproduct.le (sub_nonneg.mpr hmax) hP hx.le
  rw [exact_priceSwap t hbase hpool hmin hamount] at h
  obtain ⟨delta, happly, rfl⟩ : ∃ delta, Arithmetic.rat.applySwapToPool market terraPoolDelta
      t.offerDenom amount t.askDenom (t.price * t.paid terraPoolDelta amount) = .ok delta ∧
      _ = priced := by
    cases hx : Arithmetic.rat.applySwapToPool market terraPoolDelta t.offerDenom amount t.askDenom
      (t.price * t.paid terraPoolDelta amount) with
    | error err =>
      rw [hx] at h
      cases h
    | ok delta =>
      rw [hx] at h
      exact ⟨delta, rfl, Except.ok.inj h⟩
  refine ⟨rfl, ?_⟩
  by_cases hoffer : t.offerDenom = microLunaDenom
  · obtain rfl := (exact_applySwapToPool_luna t hoffer amount hn).2 delta happly
    have hfill := Fill.of_payment (r := market.share) hproduct hP hx.le
    have hask : market.product / t.offerPool terraPoolDelta =
        market.basePool + terraPoolDelta := by
      unfold Direction.offerPool
      rw [if_pos hoffer, div_div_cancel₀ hproduct.ne']
    rw [hask] at hfill
    have hleft : market.basePool + (terraPoolDelta - t.paid terraPoolDelta amount) =
        market.basePool + terraPoolDelta - t.paid terraPoolDelta amount := by ring
    have hpos : 0 < market.basePool + (terraPoolDelta - t.paid terraPoolDelta amount) := by
      rw [hleft]
      exact (div_pos_iff_of_pos_left hproduct).mp hfill.pool_pos
    refine ⟨hpos, ?_⟩
    have hnew : t.offerPool (terraPoolDelta - t.paid terraPoolDelta amount) =
        market.product / (market.basePool + terraPoolDelta - t.paid terraPoolDelta amount) := by
      unfold Direction.offerPool
      rw [if_pos hoffer, hleft]
    show Fill _ _ _ _ _ (t.offerPool (terraPoolDelta - t.paid terraPoolDelta amount))
    rw [hnew]
    exact hfill
  · rw [exact_applySwapToPool_terra t hoffer hamount] at happly
    obtain rfl := Except.ok.inj happly
    have hpools : ∀ delta, t.offerPool delta = market.basePool + delta := by
      intro delta
      exact if_neg hoffer
    refine ⟨by show 0 < market.basePool + (terraPoolDelta + t.base amount); linarith, ?_⟩
    show Fill _ _ _ _ _ (t.offerPool (terraPoolDelta + t.base amount))
    rw [hpools (terraPoolDelta + t.base amount), ← add_assoc, ← hpools terraPoolDelta]
    exact Fill.of_offer hP hx.le

/-- A swap that pays something goes through. -/
theorem priceSwap_succeeds {amount : ℚ} (hamount : 0 < amount)
    (hpaid : 0 < t.paid terraPoolDelta amount) :
    ∃ priced, Arithmetic.rat.priceSwap market terraPoolDelta t.offerDenom amount t.askDenom =
      .ok priced := by
  rw [exact_priceSwap t hbase hpool hmin hamount]
  by_cases hoffer : t.offerDenom = microLunaDenom
  · rw [(exact_applySwapToPool_luna t hoffer amount hpaid.le).1 hpaid]
    exact ⟨_, rfl⟩
  · rw [exact_applySwapToPool_terra t hoffer hamount]
    exact ⟨_, rfl⟩

end

/-! ### A list of offers -/

/-- What a list of offers brings: the sum of the payments, and the offers that were refused. -/
structure Received where
  total : ℚ
  refused : List ℚ
  deriving DecidableEq

/-- The offers one after another.  A swap that is refused changes nothing. -/
def Direction.execute (terraPoolDelta : ℚ) : List ℚ → Received
  | [] => ⟨0, []⟩
  | amount :: rest =>
    match Arithmetic.rat.priceSwap market terraPoolDelta t.offerDenom amount t.askDenom with
    | .ok priced =>
      let after := Direction.execute priced.terraPoolDelta rest
      ⟨priced.net + after.total, after.refused⟩
    | .error _ =>
      let after := Direction.execute terraPoolDelta rest
      ⟨after.total, amount :: after.refused⟩

section
variable (hbase : 0 < market.basePool) (hmin : 0 ≤ market.minStabilitySpread)
include hbase hmin

/-- The whole list is paid at most the quote of its sum. -/
theorem execute_total_le (hmax : market.minStabilitySpread ≤ 1)
    (hpool : 0 < market.basePool + terraPoolDelta) {offers : List ℚ}
    (hpos : ∀ amount ∈ offers, 0 < amount) :
    (t.execute terraPoolDelta offers).total ≤ t.price * t.paid terraPoolDelta offers.sum := by
  have hproduct : 0 < market.product := mul_pos hbase hbase
  have hshare : 0 ≤ market.share := sub_nonneg.mpr hmax
  induction offers generalizing terraPoolDelta with
  | nil =>
    have hzero : t.paid terraPoolDelta 0 = 0 := by
      unfold Direction.paid Direction.base
      rw [zero_mul, zero_div, ConstantProduct.quote_zero]
    rw [List.sum_nil, hzero, mul_zero]
    exact le_rfl
  | cons amount rest ih =>
    obtain ⟨hamount, hrest⟩ := List.forall_mem_cons.mp hpos
    have hsum : 0 ≤ t.base rest.sum := by
      have hnonneg : 0 ≤ rest.sum := List.sum_nonneg (fun x hx => (hrest x hx).le)
      exact div_nonneg (mul_nonneg hnonneg t.sdr.rate_pos.le) t.offer.rate_pos.le
    -- the offers after this one, from the pool this one leaves
    have hadd : ∀ n P', Fill market.product market.share (t.offerPool terraPoolDelta)
        (t.base amount) n P' →
        t.price * n + t.price * quote market.product market.share P' (t.base rest.sum) ≤
          t.price * t.paid terraPoolDelta (amount + rest.sum) := by
      intro n P' hfill
      unfold Direction.paid
      rw [t.base_add, ← mul_add]
      exact mul_le_mul_of_nonneg_left (ConstantProduct.quote_add_le hproduct.le hsum hfill)
        t.price_pos.le
    rw [List.sum_cons]
    unfold Direction.execute
    cases h : Arithmetic.rat.priceSwap market terraPoolDelta t.offerDenom amount t.askDenom with
    | ok priced =>
      obtain ⟨hnet, hpool', hfill⟩ := priceSwap_fill t hbase hpool hmin hmax hamount h
      have hafter := ih hpool' hrest
      show priced.net + (t.execute priced.terraPoolDelta rest).total ≤ _
      calc priced.net + (t.execute priced.terraPoolDelta rest).total
          ≤ t.price * t.paid terraPoolDelta amount +
              t.price * t.paid priced.terraPoolDelta rest.sum := by rw [hnet]; linarith
        _ ≤ _ := hadd _ _ hfill
    | error err =>
      have hrefused := hadd 0 _ (Fill.refused hshare (offerPool_pos t hbase hpool)
        (t.base_pos hamount).le)
      rw [mul_zero, zero_add] at hrefused
      exact (ih hpool hrest).trans hrefused

/-- Below a minimum spread of one, every offer goes through. -/
theorem execute_refused (hmax : market.minStabilitySpread < 1)
    (hpool : 0 < market.basePool + terraPoolDelta) {offers : List ℚ}
    (hpos : ∀ amount ∈ offers, 0 < amount) :
    (t.execute terraPoolDelta offers).refused = [] := by
  induction offers generalizing terraPoolDelta with
  | nil => rfl
  | cons amount rest ih =>
    obtain ⟨hamount, hrest⟩ := List.forall_mem_cons.mp hpos
    have hpaid : 0 < t.paid terraPoolDelta amount :=
      ConstantProduct.quote_pos (mul_pos hbase hbase) (sub_pos.mpr hmax)
        (offerPool_pos t hbase hpool) (t.base_pos hamount)
    obtain ⟨priced, h⟩ := priceSwap_succeeds t hbase hpool hmin hamount hpaid
    obtain ⟨_, hpool', _⟩ := priceSwap_fill t hbase hpool hmin hmax.le hamount h
    unfold Direction.execute
    rw [h]
    exact ih hpool' hrest

/-- One offer is paid its quote; it is refused only if that is nothing. -/
theorem execute_single (hmax : market.minStabilitySpread ≤ 1)
    (hpool : 0 < market.basePool + terraPoolDelta) {amount : ℚ} (hamount : 0 < amount) :
    (t.execute terraPoolDelta [amount]).total = t.price * t.paid terraPoolDelta amount := by
  unfold Direction.execute
  cases h : Arithmetic.rat.priceSwap market terraPoolDelta t.offerDenom amount t.askDenom with
  | ok priced =>
    obtain ⟨hnet, _, _⟩ := priceSwap_fill t hbase hpool hmin hmax hamount h
    show priced.net + 0 = _
    rw [hnet, add_zero]
  | error err =>
    have hpaid : 0 ≤ t.paid terraPoolDelta amount :=
      ConstantProduct.quote_nonneg (mul_pos hbase hbase).le (sub_nonneg.mpr hmax)
        (offerPool_pos t hbase hpool) (t.base_pos hamount).le
    have hzero : t.paid terraPoolDelta amount = 0 := by
      refine le_antisymm (not_lt.mp (fun hpos => ?_)) hpaid
      obtain ⟨priced, hok⟩ := priceSwap_succeeds t hbase hpool hmin hamount hpos
      rw [hok] at h
      cases h
    show (0 : ℚ) = _
    rw [hzero, mul_zero]

end

/-- An offer of nothing is refused, at the latest when the base denom is left. -/
theorem execute_nothing : (t.execute terraPoolDelta [0]).total = 0 := by
  have herror : ∃ err, Arithmetic.rat.computeSwap market terraPoolDelta t.offerDenom 0 t.askDenom =
      .error err := by
    unfold Arithmetic.computeSwap
    rw [if_neg t.denoms_ne]
    by_cases hsdr : t.offerDenom = microSDRDenom
    · have hne : microSDRDenom ≠ t.askDenom := hsdr ▸ t.denoms_ne
      obtain ⟨err, herr⟩ := exact_computeInternalSwap_zero t.sdr t.ask hne
      have hbase : Arithmetic.rat.computeInternalSwap market t.offerDenom 0 microSDRDenom =
          .ok 0 := if_pos hsdr
      refine ⟨err, ?_⟩
      rw [hbase]
      show (Arithmetic.rat.computeInternalSwap market microSDRDenom 0 t.askDenom >>= _) = _
      rw [herr]
      rfl
    · obtain ⟨err, herr⟩ := exact_computeInternalSwap_zero t.offer t.sdr hsdr
      exact ⟨err, by rw [herr]; rfl⟩
  obtain ⟨err, herr⟩ := herror
  unfold Direction.execute Arithmetic.priceSwap
  rw [herr]
  rfl

end

/-- In exact arithmetic, a list of positive offers between Terra and Luna is paid in total at most
    what one swap of their sum is paid, which is the price less the spread; unless the minimum
    spread takes everything, none of the offers is refused. -/
theorem split_never_pays (market : Setting ℚ) (t : Direction market) (terraPoolDelta : ℚ)
    (offers : List ℚ) (hbase : 0 < market.basePool)
    (hpool : 0 < market.basePool + terraPoolDelta) (hmin : 0 ≤ market.minStabilitySpread)
    (hmax : market.minStabilitySpread ≤ 1) (hpos : ∀ amount ∈ offers, 0 < amount) :
    (t.execute terraPoolDelta offers).total ≤ (t.execute terraPoolDelta [offers.sum]).total ∧
    (offers ≠ [] → ∃ retAmount spread,
      Arithmetic.rat.computeSwap market terraPoolDelta t.offerDenom offers.sum t.askDenom =
        .ok (retAmount, spread) ∧
      (t.execute terraPoolDelta [offers.sum]).total = retAmount - spread * retAmount) ∧
    (market.minStabilitySpread < 1 → (t.execute terraPoolDelta offers).refused = []) := by
  refine ⟨?_, ?_, ?_⟩
  · by_cases hoffers : offers = []
    · rw [hoffers, List.sum_nil, execute_nothing]
      exact le_rfl
    · rw [execute_single t hbase hmin hmax hpool (List.sum_pos offers hpos hoffers)]
      exact execute_total_le t hbase hmin hmax hpool hpos
  · intro hoffers
    have hsum : 0 < offers.sum := List.sum_pos offers hpos hoffers
    refine ⟨_, _, exact_computeSwap t hbase hpool hsum, ?_⟩
    rw [exact_net t hsum, execute_single t hbase hmin hmax hpool hsum]
  · intro hlt
    exact execute_refused t hbase hmin hlt hpool hpos

/-- A pool of ten, one SDR for each Luna. -/
def exactMarket : Setting ℚ where
  basePool := 10
  minStabilitySpread := 1 / 50
  exchangeRate := fun denom => if denom = microSDRDenom then some 1 else none
  tobinTax := fun _ => .ok 0
  validDenom := fun _ => true

/-- Luna for SDR. -/
def lunaForSDR : Direction exactMarket where
  offerDenom := microLunaDenom
  askDenom := microSDRDenom
  sdrRate := 1
  offerRate := 1
  askRate := 1
  sdr := ⟨rfl, rfl, one_pos⟩
  offer := ⟨rfl, rfl, one_pos⟩
  ask := ⟨rfl, rfl, one_pos⟩
  luna := Or.inl ⟨rfl, by decide⟩

/-- Two offers of five to an even pool are paid 5, and so is the offer of ten. -/
theorem split_never_pays_two_fives :
    (lunaForSDR.execute 0 [5, 5]).total ≤ (lunaForSDR.execute 0 [[(5 : ℚ), 5].sum]).total ∧
    ([(5 : ℚ), 5] ≠ [] → ∃ retAmount spread,
      Arithmetic.rat.computeSwap exactMarket 0 microLunaDenom [(5 : ℚ), 5].sum microSDRDenom =
        .ok (retAmount, spread) ∧
      (lunaForSDR.execute 0 [[(5 : ℚ), 5].sum]).total = retAmount - spread * retAmount) ∧
    (exactMarket.minStabilitySpread < 1 → (lunaForSDR.execute 0 [5, 5]).refused = []) :=
  split_never_pays exactMarket lunaForSDR 0 [5, 5] (by norm_num [exactMarket])
    (by norm_num [exactMarket]) (by norm_num [exactMarket]) (by norm_num [exactMarket])
    (by simp)

end TerraClassic.Market
