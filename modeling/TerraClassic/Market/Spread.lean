import TerraClassic.Market.Pool
import TerraClassic.Oracle.Params

/-! # The spread is a fraction

    The Luna pool is a rounded quotient that `ComputeSwap` divides by again, so
    the pool asked from could seem to grow by a rounding.  It does not:

    * Terra for Luna: a quotient does not grow with its divisor, rounded or not;
    * Luna for Terra: `cp / T` is rounded by less than one unit, and every offer
      adds at least one, so `cp / (L + offer)` is at most `T`.

    So the spread is at most one in both directions, the fee is at most the
    price, and no divisor is zero: `ComputeSwap` panics only on an overflow or an
    invalid denom.
-/

namespace TerraClassic.Market

open SdkError (orPanic orPanic_eq_ok orPanic_eq_error)
open Oracle (InUnit)

/-! ### The pools -/

/-- The raw constant product. -/
def rawProduct (params : Params) : ℤ :=
  Dec.chopPrecisionAndRound (params.basePool.i * params.basePool.i)

/-- The raw Terra pool. -/
def rawTerraPool (params : Params) (terraPoolDelta : Dec) : ℤ :=
  params.basePool.i + terraPoolDelta.i

/-- The raw Luna pool. -/
def rawLunaPool (params : Params) (terraPoolDelta : Dec) : ℤ :=
  Dec.quoRaw (rawProduct params) (rawTerraPool params terraPoolDelta)

/-- The raw pool offered to. -/
def rawOfferPool (params : Params) (terraPoolDelta : Dec) (offerIsLuna : Bool) : ℤ :=
  if offerIsLuna then rawLunaPool params terraPoolDelta else rawTerraPool params terraPoolDelta

/-- The raw pool asked from. -/
def rawAskPool (params : Params) (terraPoolDelta : Dec) (offerIsLuna : Bool) : ℤ :=
  if offerIsLuna then rawTerraPool params terraPoolDelta else rawLunaPool params terraPoolDelta

/-- What the constant product leaves of the pool asked from. -/
def rawNewAskPool (params : Params) (terraPoolDelta : Dec) (offerIsLuna : Bool)
    (baseOffer : ℤ) : ℤ :=
  Dec.quoRaw (rawProduct params) (rawOfferPool params terraPoolDelta offerIsLuna + baseOffer)

/-- What the constant product keeps of the offer. -/
def rawDifference (params : Params) (terraPoolDelta : Dec) (offerIsLuna : Bool)
    (baseOffer : ℤ) : ℤ :=
  baseOffer - (rawAskPool params terraPoolDelta offerIsLuna -
    rawNewAskPool params terraPoolDelta offerIsLuna baseOffer)

/-- The raw spread, before the minimum. -/
def rawSpread (params : Params) (terraPoolDelta : Dec) (offerIsLuna : Bool) (baseOffer : ℤ) : ℤ :=
  Dec.quoRaw (rawDifference params terraPoolDelta offerIsLuna baseOffer) baseOffer

/-- No operation of the spread leaves the bit bound. -/
structure SpreadFits (params : Params) (terraPoolDelta : Dec) (offerIsLuna : Bool)
    (baseOffer : ℤ) : Prop where
  product : Dec.Fits (rawProduct params)
  terraPool : Dec.Fits (rawTerraPool params terraPoolDelta)
  lunaPool : Dec.Fits (rawLunaPool params terraPoolDelta)
  newOfferPool : Dec.Fits (rawOfferPool params terraPoolDelta offerIsLuna + baseOffer)
  newAskPool : Dec.Fits (rawNewAskPool params terraPoolDelta offerIsLuna baseOffer)
  askBase : Dec.Fits (rawAskPool params terraPoolDelta offerIsLuna -
    rawNewAskPool params terraPoolDelta offerIsLuna baseOffer)
  difference : Dec.Fits (rawDifference params terraPoolDelta offerIsLuna baseOffer)
  spread : Dec.Fits (rawSpread params terraPoolDelta offerIsLuna baseOffer)

section
variable {params : Params} {terraPoolDelta : Dec}

theorem rawProduct_nonneg (params : Params) : 0 ≤ rawProduct params :=
  Dec.chop_nonneg (mul_self_nonneg _)

theorem rawLunaPool_nonneg (hpool : 0 < rawTerraPool params terraPoolDelta) :
    0 ≤ rawLunaPool params terraPoolDelta :=
  Dec.quoRaw_nonneg (rawProduct_nonneg params) hpool.le

theorem rawOfferPool_nonneg (hpool : 0 < rawTerraPool params terraPoolDelta)
    (offerIsLuna : Bool) : 0 ≤ rawOfferPool params terraPoolDelta offerIsLuna := by
  unfold rawOfferPool
  split
  · exact rawLunaPool_nonneg hpool
  · exact hpool.le

/-- The pool asked from does not grow. -/
theorem rawNewAskPool_le (hpool : 0 < rawTerraPool params terraPoolDelta) (offerIsLuna : Bool)
    {baseOffer : ℤ} (hoffer : 0 < baseOffer) :
    rawNewAskPool params terraPoolDelta offerIsLuna baseOffer ≤
      rawAskPool params terraPoolDelta offerIsLuna := by
  unfold rawNewAskPool rawAskPool rawOfferPool
  cases offerIsLuna with
  | false =>
    simp only [Bool.false_eq_true, if_false]
    exact Dec.quoRaw_antitone (rawProduct_nonneg params) hpool (by omega)
  | true =>
    simp only [if_true]
    have hluna := rawLunaPool_nonneg hpool
    -- the Luna pool is at most one unit too small, and the offer is at least one
    have hround : rawProduct params * decOne - rawTerraPool params terraPoolDelta ≤
        rawTerraPool params terraPoolDelta * rawLunaPool params terraPoolDelta :=
      Dec.le_mul_quoRaw hpool
    apply Dec.quoRaw_le (by omega)
    have hunit := mul_le_mul_of_nonneg_left (show 1 ≤ baseOffer by omega) hpool.le
    linarith

/-- The constant product returns no more than was offered, so the spread is at most one. -/
theorem rawSpread_le_one (hpool : 0 < rawTerraPool params terraPoolDelta) (offerIsLuna : Bool)
    {baseOffer : ℤ} (hoffer : 0 < baseOffer) :
    rawSpread params terraPoolDelta offerIsLuna baseOffer ≤ decOne := by
  have hask := rawNewAskPool_le hpool offerIsLuna hoffer
  apply Dec.quoRaw_le hoffer
  rw [mul_comm (decOne : ℤ)]
  apply mul_le_mul_of_nonneg_right _ Dec.decOne_posInt.le
  unfold rawDifference
  linarith

/-- A value raised to a lower bound, as the code writes a maximum. -/
theorem ite_lt_eq_max {α : Type} [LinearOrder α] (a b : α) :
    (if b < a then a else b) = max a b := by
  rw [max_comm, max_def_lt]

/-- The spread exists unless an operation leaves the bit bound: no divisor is zero. -/
theorem returns_constantProductSpread (hpool : 0 < rawTerraPool params terraPoolDelta)
    (offerIsLuna : Bool) {baseOffer : Dec} (hoffer : 0 < baseOffer.i) :
    Returns (constantProductSpread params terraPoolDelta offerIsLuna baseOffer)
      (SpreadFits params terraPoolDelta offerIsLuna baseOffer.i)
      (max params.minStabilitySpread
        ⟨rawSpread params terraPoolDelta offerIsLuna baseOffer.i⟩) := by
  have hoffered := rawOfferPool_nonneg hpool offerIsLuna
  have hofferPool : (if offerIsLuna then (⟨rawLunaPool params terraPoolDelta⟩ : Dec)
      else ⟨rawTerraPool params terraPoolDelta⟩) =
      ⟨rawOfferPool params terraPoolDelta offerIsLuna⟩ := by
    unfold rawOfferPool
    cases offerIsLuna <;> rfl
  have haskPool : (if offerIsLuna then (⟨rawTerraPool params terraPoolDelta⟩ : Dec)
      else ⟨rawLunaPool params terraPoolDelta⟩) =
      ⟨rawAskPool params terraPoolDelta offerIsLuna⟩ := by
    unfold rawAskPool
    cases offerIsLuna <;> rfl
  have hall : Returns (constantProductSpread params terraPoolDelta offerIsLuna baseOffer)
      (Dec.Fits (rawProduct params) ∧ Dec.Fits (rawTerraPool params terraPoolDelta) ∧
        Dec.Fits (rawLunaPool params terraPoolDelta) ∧
        Dec.Fits (rawOfferPool params terraPoolDelta offerIsLuna + baseOffer.i) ∧
        Dec.Fits (rawNewAskPool params terraPoolDelta offerIsLuna baseOffer.i) ∧
        Dec.Fits (rawAskPool params terraPoolDelta offerIsLuna -
          rawNewAskPool params terraPoolDelta offerIsLuna baseOffer.i) ∧
        Dec.Fits (rawDifference params terraPoolDelta offerIsLuna baseOffer.i) ∧
        Dec.Fits (rawSpread params terraPoolDelta offerIsLuna baseOffer.i))
      (max params.minStabilitySpread
        ⟨rawSpread params terraPoolDelta offerIsLuna baseOffer.i⟩) := by
    refine (Dec.returns_mul params.basePool params.basePool).bind fun _ => ?_
    refine (Dec.returns_add params.basePool terraPoolDelta).bind fun _ => ?_
    refine (Dec.returns_quo (b := ⟨rawTerraPool params terraPoolDelta⟩) hpool.ne'
      ⟨rawProduct params⟩).bind fun _ => ?_
    show Returns (do
      let newOfferPool ← Dec.add (if offerIsLuna then (⟨rawLunaPool params terraPoolDelta⟩ : Dec)
        else ⟨rawTerraPool params terraPoolDelta⟩) baseOffer
      let newAskPool ← Dec.quo (⟨rawProduct params⟩ : Dec) newOfferPool
      let askBaseAmount ← Dec.sub (if offerIsLuna then
        (⟨rawTerraPool params terraPoolDelta⟩ : Dec)
        else ⟨rawLunaPool params terraPoolDelta⟩) newAskPool
      let difference ← baseOffer.sub askBaseAmount
      let spread ← difference.quo baseOffer
      return if spread < params.minStabilitySpread then params.minStabilitySpread else spread) _ _
    rw [hofferPool, haskPool]
    refine (Dec.returns_add ⟨rawOfferPool params terraPoolDelta offerIsLuna⟩
      baseOffer).bind fun _ => ?_
    refine (Dec.returns_quo (b := ⟨rawOfferPool params terraPoolDelta offerIsLuna + baseOffer.i⟩)
      (by show _ + _ ≠ (0 : ℤ); omega) ⟨rawProduct params⟩).bind fun _ => ?_
    refine (Dec.returns_checked (rawAskPool params terraPoolDelta offerIsLuna -
      rawNewAskPool params terraPoolDelta offerIsLuna baseOffer.i)).bind fun _ => ?_
    refine (Dec.returns_checked (rawDifference params terraPoolDelta offerIsLuna
      baseOffer.i)).bind fun _ => ?_
    refine (Dec.returns_quo hoffer.ne'
      ⟨rawDifference params terraPoolDelta offerIsLuna baseOffer.i⟩).bind_some ?_
    exact congrArg some (ite_lt_eq_max _ _)
  refine hall.congr ?_
  constructor
  · rintro ⟨h₁, h₂, h₃, h₄, h₅, h₆, h₇, h₈⟩
    exact ⟨h₁, h₂, h₃, h₄, h₅, h₆, h₇, h₈⟩
  · rintro ⟨h₁, h₂, h₃, h₄, h₅, h₆, h₇, h₈⟩
    exact ⟨h₁, h₂, h₃, h₄, h₅, h₆, h₇, h₈⟩

end

/-! ### Panics -/

/-- No operation of an internal swap leaves the bit bound. -/
def InternalFits (oracle : Oracle.Store) (offerCoin : DecCoin) (askDenom : Denom) : Prop :=
  offerCoin.denom ≠ askDenom →
    ∀ offerRate askRate, getLunaExchangeRate oracle offerCoin.denom = some offerRate →
      getLunaExchangeRate oracle askDenom = some askRate →
      Dec.Fits (Dec.chopPrecisionAndRound (offerCoin.amount.i * askRate.i)) ∧
        Dec.Fits (Dec.quoRaw (Dec.chopPrecisionAndRound (offerCoin.amount.i * askRate.i))
          offerRate.i)

/-- No operation of a swap leaves the bit bound: neither those of the two conversions, nor those
    of the spread when Luna is swapped. -/
def NoOverflow (k : Keeper) (s : State) (offerCoin : Coin) (askDenom : Denom) : Prop :=
  InternalFits k.oracle ⟨offerCoin.denom, Dec.ofInt offerCoin.amount⟩ microSDRDenom ∧
    ∀ base, computeInternalSwap k ⟨offerCoin.denom, Dec.ofInt offerCoin.amount⟩ microSDRDenom =
        .ok base →
      InternalFits k.oracle base askDenom ∧
        (offerCoin.denom = microLunaDenom ∨ askDenom = microLunaDenom →
          SpreadFits k.params s.terraPoolDelta (offerCoin.denom = microLunaDenom) base.amount.i)

/-- An internal swap at positive rates panics only on an overflow or an invalid denom. -/
theorem computeInternalSwap_panic {k : Keeper} (hrates : RatesPositive k.oracle)
    {offerCoin : DecCoin} {askDenom : Denom} (hfits : InternalFits k.oracle offerCoin askDenom)
    (h : computeInternalSwap k offerCoin askDenom = .error .panicked) :
    k.bank.validDenom askDenom = false := by
  unfold computeInternalSwap at h
  by_cases hsame : offerCoin.denom = askDenom
  · rw [if_pos hsame] at h
    cases h
  rw [if_neg hsame] at h
  cases hoffer : getLunaExchangeRate k.oracle offerCoin.denom with
  | none =>
    simp only [hoffer] at h
    cases h
  | some offerRate =>
    cases hask : getLunaExchangeRate k.oracle askDenom with
    | none =>
      simp only [hoffer, hask] at h
      cases h
    | some askRate =>
      obtain ⟨hmul, hquo⟩ := hfits hsame offerRate askRate hoffer hask
      have hrate := (getLunaExchangeRate_pos hrates hoffer).ne'
      simp only [hoffer, hask] at h
      rcases Run.bind_eq_error.mp h with h | ⟨product, hproduct, h⟩
      · rw [(Dec.returns_mul offerCoin.amount askRate).1 hmul] at h
        cases h
      rw [(Dec.returns_mul offerCoin.amount askRate).1 hmul] at hproduct
      cases hproduct
      rcases Run.bind_eq_error.mp h with h | ⟨retAmount, _, h⟩
      · rw [(Dec.returns_quo hrate ⟨Dec.chopPrecisionAndRound
          (offerCoin.amount.i * askRate.i)⟩).1 hquo] at h
        cases h
      by_cases hle : retAmount ≤ Dec.zero
      · rw [if_pos hle] at h
        cases h
      · rw [if_neg hle] at h
        -- the amount is positive, so only the denom is left to refuse
        have hnone := (orPanic_eq_error.mp h).1
        unfold newDecCoinFromDec at hnone
        split at hnone
        · cases hnone
        · next hinvalid =>
          have hpos : 0 ≤ retAmount.i := le_of_lt (Dec.lt_def.mp (not_le.mp hle))
          simpa [hpos] using hinvalid

/-! ### The swap -/

theorem computeInternalSwap_pos {k : Keeper} {offerCoin retCoin : DecCoin} {askDenom : Denom}
    (hoffer : 0 < offerCoin.amount.i)
    (h : computeInternalSwap k offerCoin askDenom = .ok retCoin) : 0 < retCoin.amount.i := by
  by_cases hsame : offerCoin.denom = askDenom
  · unfold computeInternalSwap at h
    rw [if_pos hsame] at h
    cases h
    exact hoffer
  · obtain ⟨_, _, _, _, _, hpos⟩ := computeInternalSwap_ok hsame h
    exact hpos

theorem newDecCoinFromCoin_eq_some {k : Keeper} {coin : Coin} {decCoin : DecCoin}
    (h : newDecCoinFromCoin k coin = some decCoin) :
    decCoin = ⟨coin.denom, Dec.ofInt coin.amount⟩ := by
  unfold newDecCoinFromCoin at h
  split at h
  · exact (Option.some.inj h).symm
  · cases h

/-- What a computed swap went through: the two conversions, and then the tobin taxes or the
    constant product. -/
structure ComputedSwap (k : Keeper) (s : State) (offerCoin : Coin) (askDenom : Denom)
    (retCoin : DecCoin) (spread : Dec) : Prop where
  denoms : offerCoin.denom ≠ askDenom
  prices : ∃ base,
    computeInternalSwap k ⟨offerCoin.denom, Dec.ofInt offerCoin.amount⟩ microSDRDenom = .ok base ∧
    computeInternalSwap k base askDenom = .ok retCoin ∧
    (offerCoin.denom = microLunaDenom ∨ askDenom = microLunaDenom →
      constantProductSpread k.params s.terraPoolDelta (offerCoin.denom = microLunaDenom)
        base.amount = some spread)
  taxes : offerCoin.denom ≠ microLunaDenom → askDenom ≠ microLunaDenom →
    ∃ offerTax askTax, getTobinTax k.oracle offerCoin.denom = .ok offerTax ∧
      getTobinTax k.oracle askDenom = .ok askTax ∧ spread = max offerTax askTax

theorem computeSwap_ok {k : Keeper} {s : State} {offerCoin : Coin} {askDenom : Denom}
    {retCoin : DecCoin} {spread : Dec}
    (h : computeSwap k s offerCoin askDenom = .ok (retCoin, spread)) :
    ComputedSwap k s offerCoin askDenom retCoin spread := by
  unfold computeSwap at h
  by_cases hsame : offerCoin.denom = askDenom
  · simp only [if_pos hsame] at h
    cases h
  simp only [if_neg hsame] at h
  obtain ⟨offerDecCoin, hoffer, h⟩ := Run.bind_eq_ok.mp h
  obtain rfl := newDecCoinFromCoin_eq_some (orPanic_eq_ok.mp hoffer)
  obtain ⟨base, hbase, h⟩ := Run.bind_eq_ok.mp h
  obtain ⟨ret, hret, h⟩ := Run.bind_eq_ok.mp h
  by_cases hterra : offerCoin.denom ≠ microLunaDenom ∧ askDenom ≠ microLunaDenom
  · rw [if_pos hterra] at h
    obtain ⟨offerTax, hofferTax, h⟩ := Run.bind_eq_ok.mp h
    obtain ⟨askTax, haskTax, h⟩ := Run.bind_eq_ok.mp h
    cases h
    refine ⟨hsame, ⟨base, hbase, hret, ?_⟩, ?_⟩
    · rintro (hluna | hluna)
      · exact absurd hluna hterra.1
      · exact absurd hluna hterra.2
    · intro _ _
      refine ⟨offerTax, askTax, hofferTax, haskTax, ?_⟩
      rw [max_comm]
      exact ite_lt_eq_max askTax offerTax
  · rw [if_neg hterra] at h
    obtain ⟨spread', hspread, h⟩ := Run.bind_eq_ok.mp h
    cases h
    refine ⟨hsame, ⟨base, hbase, hret, fun _ => orPanic_eq_ok.mp hspread⟩, ?_⟩
    intro hoffer' hask'
    exact absurd ⟨hoffer', hask'⟩ hterra

theorem getTobinTax_mem {oracle : Oracle.Store} {denom : Denom} {tax : Dec}
    (h : getTobinTax oracle denom = .ok tax) : oracle.tobinTaxes.get denom = some tax := by
  unfold getTobinTax at h
  cases htax : oracle.tobinTaxes.get denom with
  | none =>
    rw [htax] at h
    cases h
  | some t =>
    rw [htax] at h
    cases h
    rfl

section
variable {k : Keeper} {s : State} {offerCoin : Coin} {askDenom : Denom}

/-- A swap panics only on an overflow or an invalid denom. -/
theorem computeSwap_panic (hpool : 0 < k.params.basePool.i + s.terraPoolDelta.i)
    (hrates : RatesPositive k.oracle) (hoffer : 0 < offerCoin.amount)
    (hfits : NoOverflow k s offerCoin askDenom)
    (h : computeSwap k s offerCoin askDenom = .error .panicked) :
    k.bank.validDenom offerCoin.denom = false ∨ k.bank.validDenom microSDRDenom = false ∨
      k.bank.validDenom askDenom = false := by
  unfold computeSwap at h
  by_cases hsame : offerCoin.denom = askDenom
  · simp only [if_pos hsame] at h
    cases h
  simp only [if_neg hsame] at h
  rcases Run.bind_eq_error.mp h with h | ⟨offerDecCoin, hdec, h⟩
  · have hnone := (orPanic_eq_error.mp h).1
    unfold newDecCoinFromCoin at hnone
    split at hnone
    · cases hnone
    · next hinvalid => exact Or.inl (by simpa [hoffer.le] using hinvalid)
  obtain rfl := newDecCoinFromCoin_eq_some (orPanic_eq_ok.mp hdec)
  rcases Run.bind_eq_error.mp h with h | ⟨base, hbase, h⟩
  · exact Or.inr (Or.inl (computeInternalSwap_panic hrates hfits.1 h))
  obtain ⟨haskFits, hspreadFits⟩ := hfits.2 base hbase
  rcases Run.bind_eq_error.mp h with h | ⟨ret, _, h⟩
  · exact Or.inr (Or.inr (computeInternalSwap_panic hrates haskFits h))
  have hbasePos : 0 < base.amount.i :=
    computeInternalSwap_pos (mul_pos hoffer Dec.decOne_posInt) hbase
  split at h
  -- a missing tobin tax is an error, not a panic
  · have hno : ∀ denom, getTobinTax k.oracle denom ≠ .error .panicked := by
      intro denom herr
      unfold getTobinTax at herr
      split at herr <;> cases herr
    rcases Run.bind_eq_error.mp h with h | ⟨_, _, h⟩
    · exact absurd h (hno _)
    rcases Run.bind_eq_error.mp h with h | ⟨_, _, h⟩
    · exact absurd h (hno _)
    · cases h
  · next hterra =>
    have hluna : offerCoin.denom = microLunaDenom ∨ askDenom = microLunaDenom := by
      by_contra hnot
      exact hterra (not_or.mp hnot)
    have hspread := (returns_constantProductSpread hpool _ hbasePos).1 (hspreadFits hluna)
    rcases Run.bind_eq_error.mp h with h | ⟨_, _, h⟩
    · rw [(orPanic_eq_error.mp h).1] at hspread
      cases hspread
    · cases h

/-- The spread of a Luna swap is at most one and at least the minimum. -/
theorem lunaSpread_bounds (hpool : 0 < k.params.basePool.i + s.terraPoolDelta.i)
    (hmin : InUnit k.params.minStabilitySpread) {offerIsLuna : Bool} {base spread : Dec}
    (hbase : 0 < base.i)
    (h : constantProductSpread k.params s.terraPoolDelta offerIsLuna base = some spread) :
    k.params.minStabilitySpread ≤ spread ∧ spread ≤ Dec.one := by
  have hreturns := returns_constantProductSpread hpool offerIsLuna hbase
  rw [hreturns.1 (hreturns.isSome_iff.mp (by rw [h]; rfl))] at h
  rw [← Option.some.inj h]
  exact ⟨le_max_left _ _, max_le hmin.2 (rawSpread_le_one hpool offerIsLuna hbase)⟩

/-- The spread of every computed swap is a fraction. -/
theorem ComputedSwap.spread_inUnit {retCoin : DecCoin} {spread : Dec}
    (w : ComputedSwap k s offerCoin askDenom retCoin spread)
    (hpool : 0 < k.params.basePool.i + s.terraPoolDelta.i)
    (hmin : InUnit k.params.minStabilitySpread)
    (htaxes : ∀ denom tax, k.oracle.tobinTaxes.get denom = some tax → InUnit tax)
    (hoffer : 0 < offerCoin.amount) : InUnit spread := by
  by_cases hluna : offerCoin.denom = microLunaDenom ∨ askDenom = microLunaDenom
  · obtain ⟨base, hbase, _, hspread⟩ := w.prices
    obtain ⟨hlow, hhigh⟩ := lunaSpread_bounds hpool hmin
      (computeInternalSwap_pos (mul_pos hoffer Dec.decOne_posInt) hbase) (hspread hluna)
    exact ⟨hmin.1.trans hlow, hhigh⟩
  · obtain ⟨hoffer', hask'⟩ := not_or.mp hluna
    obtain ⟨offerTax, askTax, hofferTax, haskTax, rfl⟩ := w.taxes hoffer' hask'
    have hofferUnit := htaxes _ _ (getTobinTax_mem hofferTax)
    have haskUnit := htaxes _ _ (getTobinTax_mem haskTax)
    exact ⟨le_trans hofferUnit.1 (Dec.le_def.mp (le_max_left offerTax askTax)),
      max_le hofferUnit.2 haskUnit.2⟩

end

/-- At a positive pool, positive rates and parameters in the unit interval, a swap without an
    overflow is refused, panics on an invalid denom, or has a spread that is a fraction: at least
    the minimum if Luna is swapped, the larger tobin tax if not.  The fee is at most the
    price, so the net amount is not negative. -/
theorem swap_spread_valid (k : Keeper) (s : State) (offerCoin : Coin) (askDenom : Denom)
    (hpool : 0 < k.params.basePool.i + s.terraPoolDelta.i)
    (hrates : RatesPositive k.oracle) (hmin : InUnit k.params.minStabilitySpread)
    (htaxes : ∀ denom tax, k.oracle.tobinTaxes.get denom = some tax → InUnit tax)
    (hoffer : 0 < offerCoin.amount) (hfits : NoOverflow k s offerCoin askDenom) :
    (computeSwap k s offerCoin askDenom = .error .panicked →
      k.bank.validDenom offerCoin.denom = false ∨ k.bank.validDenom microSDRDenom = false ∨
        k.bank.validDenom askDenom = false) ∧
    ∀ retCoin spread, computeSwap k s offerCoin askDenom = .ok (retCoin, spread) →
      0 ≤ spread.i ∧ spread ≤ Dec.one ∧
      (offerCoin.denom = microLunaDenom ∨ askDenom = microLunaDenom →
        k.params.minStabilitySpread ≤ spread) ∧
      (offerCoin.denom ≠ microLunaDenom → askDenom ≠ microLunaDenom →
        ∃ offerTax askTax, getTobinTax k.oracle offerCoin.denom = .ok offerTax ∧
          getTobinTax k.oracle askDenom = .ok askTax ∧ spread = max offerTax askTax) ∧
      Dec.chopPrecisionAndRound (spread.i * retCoin.amount.i) ≤ retCoin.amount.i ∧
      ∀ fee, swapFee k retCoin spread = some fee → 0 ≤ retCoin.amount.i - fee.amount.i := by
  refine ⟨computeSwap_panic hpool hrates hoffer hfits, ?_⟩
  intro retCoin spread h
  have w := computeSwap_ok h
  obtain ⟨base, hbase, hret, hspread⟩ := w.prices
  have hbasePos := computeInternalSwap_pos (mul_pos hoffer Dec.decOne_posInt) hbase
  have hretPos := computeInternalSwap_pos hbasePos hret
  obtain ⟨hlow, hhigh⟩ := w.spread_inUnit hpool hmin htaxes hoffer
  have hfee : Dec.chopPrecisionAndRound (spread.i * retCoin.amount.i) ≤ retCoin.amount.i :=
    Dec.chop_mul_le (Dec.le_def.mp hhigh) hretPos.le
  refine ⟨hlow, hhigh, ?_, w.taxes, hfee, ?_⟩
  · intro hluna
    exact (lunaSpread_bounds hpool hmin hbasePos (hspread hluna)).1
  · intro fee hswapFee
    rw [(swapFee_raw hlow hswapFee).2]
    linarith

/-- One SDR for each Luna, a million units of Luna offered for SDR. -/
theorem swap_spread_valid_million :
    let k : Keeper := ⟨defaultParams, smallOracle, smallBankConfig⟩
    ∃ retCoin spread,
      computeSwap k smallMarket ⟨microLunaDenom, 1000000⟩ microSDRDenom = .ok (retCoin, spread) ∧
      spread ≤ Dec.one ∧ defaultParams.minStabilitySpread ≤ spread := by
  intro k
  have hbase : computeInternalSwap k ⟨microLunaDenom, Dec.ofInt 1000000⟩ microSDRDenom =
      .ok ⟨microSDRDenom, Dec.ofInt 1000000⟩ := by decide +kernel
  have hfits : NoOverflow k smallMarket ⟨microLunaDenom, 1000000⟩ microSDRDenom := by
    refine ⟨?_, ?_⟩
    · intro _ offerRate askRate hoffer hask
      cases (show some Dec.one = some offerRate from hoffer)
      cases (show some Dec.one = some askRate from hask)
      exact ⟨by decide +kernel, by decide +kernel⟩
    · intro base h
      rw [hbase] at h
      cases h
      refine ⟨fun hne => absurd rfl hne, fun _ => ?_⟩
      constructor <;> decide +kernel
  have htaxes : ∀ denom tax, k.oracle.tobinTaxes.get denom = some tax → InUnit tax := by
    intro denom tax h
    have hall : ∀ e ∈ k.oracle.tobinTaxes.entries, 0 ≤ e.2.i ∧ e.2 ≤ Dec.one := by decide +kernel
    exact hall (denom, tax) (SortedMap.mem_entries.mpr h)
  have hok : (computeSwap k smallMarket ⟨microLunaDenom, 1000000⟩ microSDRDenom).toOption.isSome :=
    by decide +kernel
  obtain ⟨⟨retCoin, spread⟩, hsome⟩ := Option.isSome_iff_exists.mp hok
  have hok := Run.eq_ok_of_toOption hsome
  obtain ⟨_, hone, hmin, _⟩ := (swap_spread_valid k smallMarket ⟨microLunaDenom, 1000000⟩
    microSDRDenom (by decide) smallOracle_positive ⟨by decide, by decide⟩ htaxes (by decide)
    hfits).2 retCoin spread hok
  exact ⟨retCoin, spread, hok, hone, hmin (Or.inl rfl)⟩

end TerraClassic.Market
