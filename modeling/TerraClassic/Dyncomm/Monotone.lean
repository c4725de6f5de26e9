import TerraClassic.Dyncomm.Effects

/-! # The minimum commission as a function of the stake

    `CalculateDynCommission` follows the curve `(x - A) * (x / C + B)` of the voting
    power `x`, between staking's minimum and the cap.  The curve itself is not
    monotone: below `A` it is negative and may fall.  There staking's minimum, which
    is not negative, takes over, so the clamped curve is monotone
    (`clampedCurve_mono`).

    The checks of the parameters bound `A` and the cap, but neither `B` from above nor
    `C` away from zero, so the factors of the curve may leave the 315 bits of
    a decimal.  `InRange` says when they do not.
-/

namespace TerraClassic.Dyncomm

/-! ### The curve -/

/-- The voting power in percent, as a raw decimal. -/
def powerPercent (totalPower tokens : ℤ) : ℤ :=
  (tokens.tdiv powerReduction * decOne).tdiv totalPower * 100

/-- The factor `x / C + B`. -/
def slope (p : Params) (x : ℤ) : ℤ := Dec.quoRaw x p.slopeVpImpact.i + p.slopeBase.i

/-- The product `(x - A) * (x / C + B)`, before its last 18 digits are rounded off. -/
def curve (p : Params) (x : ℤ) : ℤ := (x - p.maxZero.i) * slope p x

/-- The curve between staking's minimum and the cap, in percent. -/
def clampedCurve (s : State) (x : ℤ) : Dec :=
  max (min ⟨s.params.cap.i * 100⟩ ⟨Dec.chopPrecisionAndRound (curve s.params x)⟩)
    ⟨s.staking.minCommissionRate.i * 100⟩

/-- The sizes that the computation can handle. -/
structure InRange (s : State) (tokens : ℤ) : Prop where
  total : s.staking.lastTotalPower < 2 ^ 63
  power : tokens.tdiv powerReduction < 2 ^ 63
  slope : slope s.params (powerPercent s.staking.lastTotalPower tokens) < 2 ^ 315
  /-- Half a unit below `2^315` is rounded up to it. -/
  curve : 2 * curve s.params (powerPercent s.staking.lastTotalPower tokens) <
    decOne * (2 ^ 316 - 1)

section
variable {p : Params} {totalPower tokens tokens' x x' : ℤ}

theorem powerPercent_nonneg (htotal : 0 < totalPower) (htokens : 0 ≤ tokens) :
    0 ≤ powerPercent totalPower tokens := by
  have hpower : 0 ≤ tokens.tdiv powerReduction := Int.tdiv_nonneg htokens (by decide)
  have hshare : 0 ≤ (tokens.tdiv powerReduction * decOne).tdiv totalPower :=
    Int.tdiv_nonneg (by positivity) htotal.le
  exact mul_nonneg hshare (by norm_num)

theorem powerPercent_mono (htotal : 0 < totalPower) (h : tokens ≤ tokens') :
    powerPercent totalPower tokens ≤ powerPercent totalPower tokens' := by
  have hpower : tokens.tdiv powerReduction ≤ tokens'.tdiv powerReduction :=
    Int.tdiv_le_tdiv (by decide) h
  have hscaled : tokens.tdiv powerReduction * decOne ≤ tokens'.tdiv powerReduction * decOne :=
    mul_le_mul_of_nonneg_right hpower Dec.decOne_posInt.le
  exact mul_le_mul_of_nonneg_right (Int.tdiv_le_tdiv htotal hscaled) (by norm_num)

/-- The share of an `int64` power needs few bits. -/
theorem powerPercent_lt (totalPower : ℤ) (htokens : 0 ≤ tokens)
    (hpower : tokens.tdiv powerReduction < 2 ^ 63) :
    powerPercent totalPower tokens < 2 ^ 130 := by
  have hnonneg : 0 ≤ tokens.tdiv powerReduction := Int.tdiv_nonneg htokens (by decide)
  have hshare : (tokens.tdiv powerReduction * decOne).tdiv totalPower ≤
      tokens.tdiv powerReduction * decOne := by
    rw [Int.tdiv_eq_ediv_of_nonneg (by positivity)]
    exact Int.ediv_le_self _ (by positivity)
  have hone : (decOne : ℤ) = 10 ^ 18 := by norm_num [decOne]
  unfold powerPercent
  rw [hone] at hshare ⊢
  omega

theorem slope_nonneg (hp : p.Valid) (hx : 0 ≤ x) : 0 ≤ slope p x :=
  add_nonneg (Dec.quoRaw_nonneg hx hp.slopeVpImpact.le) hp.slopeBase

theorem slope_mono (hp : p.Valid) (h : x ≤ x') : slope p x ≤ slope p x' :=
  add_le_add_left (Dec.quoRaw_mono hp.slopeVpImpact h) _

/-- Up to `A` the curve is not positive. -/
theorem curve_nonpos (hp : p.Valid) (hx : 0 ≤ x) (hA : x ≤ p.maxZero.i) : curve p x ≤ 0 :=
  mul_nonpos_of_nonpos_of_nonneg (sub_nonpos.mpr hA) (slope_nonneg hp hx)

/-- From `A` on the curve rises. -/
theorem curve_mono (hp : p.Valid) (hx : 0 ≤ x) (hA : p.maxZero.i ≤ x) (h : x ≤ x') :
    curve p x ≤ curve p x' :=
  mul_le_mul (sub_le_sub_right h _) (slope_mono hp h) (slope_nonneg hp hx)
    (sub_nonneg.mpr (hA.trans h))

end

/-! ### The clamp -/

section
variable {s : State} {x x' : ℤ}

theorem clampedCurve_mono (hparams : s.params.Valid) (hmin : s.staking.MinRateOk) (hx : 0 ≤ x)
    (h : x ≤ x') : clampedCurve s x ≤ clampedCurve s x' := by
  rcases le_total x s.params.maxZero.i with hA | hA
  · -- the curve is not positive, and staking's minimum is not below it
    have hcurve : Dec.chopPrecisionAndRound (curve s.params x) ≤ 0 :=
      Rounding.roundHalfEven_le_of_le_mul decOne Dec.decOne_pos
        (by rw [mul_zero]; exact curve_nonpos hparams hx hA)
    have hfloor : (0 : ℤ) ≤ s.staking.minCommissionRate.i * 100 :=
      mul_nonneg hmin.1 (by norm_num)
    have hbelow : (⟨Dec.chopPrecisionAndRound (curve s.params x)⟩ : Dec) ≤
        ⟨s.staking.minCommissionRate.i * 100⟩ := Dec.le_def.mpr (hcurve.trans hfloor)
    unfold clampedCurve
    rw [max_eq_right ((min_le_right _ _).trans hbelow)]
    exact le_max_right _ _
  · have hcurve : (⟨Dec.chopPrecisionAndRound (curve s.params x)⟩ : Dec) ≤
        ⟨Dec.chopPrecisionAndRound (curve s.params x')⟩ :=
      Dec.le_def.mpr (Rounding.roundHalfEven_mono decOne (curve_mono hparams hx hA h))
    exact max_le_max (min_le_min le_rfl hcurve) le_rfl

theorem le_clampedCurve (s : State) (x : ℤ) :
    s.staking.minCommissionRate.i * 100 ≤ (clampedCurve s x).i :=
  Dec.le_def.mp (le_max_right _ _)

theorem clampedCurve_le (s : State) (x : ℤ) :
    (clampedCurve s x).i ≤ (max s.params.cap s.staking.minCommissionRate).i * 100 := by
  have hcap : s.params.cap.i ≤ (max s.params.cap s.staking.minCommissionRate).i :=
    Dec.le_def.mp (le_max_left _ _)
  have hfloor : s.staking.minCommissionRate.i ≤ (max s.params.cap s.staking.minCommissionRate).i :=
    Dec.le_def.mp (le_max_right _ _)
  have hle : clampedCurve s x ≤ ⟨(max s.params.cap s.staking.minCommissionRate).i * 100⟩ := by
    refine max_le ((min_le_left _ _).trans ?_) ?_
    · exact mul_le_mul_of_nonneg_right hcap (by norm_num)
    · exact mul_le_mul_of_nonneg_right hfloor (by norm_num)
  exact Dec.le_def.mp hle

end

/-! ### When the computation returns -/

theorem returns_int64 {x : ℤ} (hx : 0 ≤ x) : Returns (int64 x) (x < 2 ^ 63) x := by
  unfold int64
  by_cases h : x < 2 ^ 63
  · rw [if_pos ⟨by omega, h⟩]
    exact (Returns.pure x).congr ⟨fun _ => h, fun _ => trivial⟩
  · rw [if_neg (fun hrange => h hrange.2)]
    exact ⟨fun hlt => absurd hlt h, fun _ => rfl⟩

section
variable {s : State} {val : Validator}

theorem returns_calculateVotingPower (htotal : 0 < s.staking.lastTotalPower)
    (htokens : 0 ≤ val.tokens) :
    Returns (calculateVotingPower s val)
      (s.staking.lastTotalPower < 2 ^ 63 ∧ val.tokens.tdiv powerReduction < 2 ^ 63)
      ⟨powerPercent s.staking.lastTotalPower val.tokens⟩ := by
  have hpower : 0 ≤ val.tokens.tdiv powerReduction := Int.tdiv_nonneg htokens (by decide)
  have hreturns : Returns (calculateVotingPower s val) _
      ⟨powerPercent s.staking.lastTotalPower val.tokens⟩ :=
    (returns_int64 htotal.le).bind fun _ => (returns_int64 hpower).bind fun _ =>
      (Dec.returns_quoInt64 _ s.staking.lastTotalPower).bind fun _ => Dec.returns_mulInt _ 100
  refine hreturns.congr ⟨fun ⟨h₁, h₂, _⟩ => ⟨h₁, h₂⟩, fun ⟨h₁, h₂⟩ => ⟨h₁, h₂, htotal.ne', ?_⟩⟩
  exact Dec.fits_of_lt_two_pow (powerPercent_nonneg htotal htokens)
    (powerPercent_lt _ htokens h₂) (by decide)

/-- A percentage of at most one hundred. -/
theorem fits_percent {d : Dec} (h₀ : 0 ≤ d.i) (h₁ : d ≤ Dec.one) : Dec.Fits (d.i * 100) := by
  have hone : Dec.Fits ((decOne : ℤ) * 100) := by decide +kernel
  have hle : d.i ≤ decOne := Dec.le_def.mp h₁
  exact hone.of_le (by omega) (by omega)

/-- The quotient by the impact never leaves the decimals. -/
theorem fits_quoRaw {x c : ℤ} (hx : 0 ≤ x) (hlt : x < 2 ^ 130) (hc : 0 < c) :
    Dec.Fits (Dec.quoRaw x c) := by
  have hle : Dec.quoRaw x c ≤ x * decOne := by
    apply Dec.quoRaw_le hc
    have : (0 : ℤ) ≤ x * decOne := by positivity
    nlinarith
  have hone : (decOne : ℤ) = 10 ^ 18 := by norm_num [decOne]
  refine Dec.fits_of_lt_two_pow (k := 190) (Dec.quoRaw_nonneg hx hc.le) ?_ (by decide)
  rw [hone] at hle
  omega

theorem curveBound_pos : (0 : ℤ) < decOne * (2 ^ 316 - 1) := by decide +kernel

/-- The rounded curve fits where its size says so; a negative value is smaller than the
    factor it comes from. -/
theorem fits_curve_iff {p : Params} (hp : p.Valid) {x : ℤ} (hx : 0 ≤ x)
    (hslope : Dec.Fits (slope p x)) :
    Dec.Fits (Dec.chopPrecisionAndRound (curve p x)) ↔
      2 * curve p x < decOne * (2 ^ 316 - 1) := by
  rcases le_or_gt 0 (curve p x) with hcurve | hcurve
  · exact Dec.fits_chop_iff hcurve
  · have hshare : p.maxZero.i - x ≤ decOne := by
      have : p.maxZero.i ≤ decOne := Dec.le_def.mp hp.maxZero.2
      omega
    have hneg : Dec.chopPrecisionAndRound (curve p x) =
        -Dec.chopPrecisionAndRound ((p.maxZero.i - x) * slope p x) := by
      unfold Dec.chopPrecisionAndRound
      rw [← Rounding.roundHalfEven_neg, ← neg_mul, neg_sub]
      rfl
    have hsize : Dec.Fits (Dec.chopPrecisionAndRound ((p.maxZero.i - x) * slope p x)) := by
      refine hslope.of_le (Dec.chop_nonneg ?_) (Dec.chop_mul_le hshare (slope_nonneg hp hx))
      unfold curve at hcurve
      linarith
    have hbound := curveBound_pos
    refine ⟨fun _ => by omega, fun _ => ?_⟩
    rw [hneg]
    unfold Dec.Fits at *
    rwa [Int.natAbs_neg]

theorem returns_calculateDynCommission (hparams : s.params.Valid) (hmin : s.staking.MinRateOk)
    (htotal : 0 < s.staking.lastTotalPower) (htokens : 0 ≤ val.tokens) :
    Returns (calculateDynCommission s val) (InRange s val.tokens)
      ⟨(clampedCurve s (powerPercent s.staking.lastTotalPower val.tokens)).i.tdiv 100⟩ := by
  set x := powerPercent s.staking.lastTotalPower val.tokens with hx
  have hnonneg : 0 ≤ x := powerPercent_nonneg htotal htokens
  have hreturns : Returns (calculateDynCommission s val) _
      ⟨(clampedCurve s x).i.tdiv 100⟩ :=
    (Dec.returns_mulInt s.params.cap 100).bind fun _ =>
    (returns_calculateVotingPower htotal htokens).bind fun _ =>
    (Dec.returns_sub ⟨x⟩ s.params.maxZero).bind fun _ =>
    (Dec.returns_quo hparams.slopeVpImpact.ne' ⟨x⟩).bind fun _ =>
    (Dec.returns_add _ s.params.slopeBase).bind fun _ =>
    (Dec.returns_mulInt s.staking.minCommissionRate 100).bind fun _ =>
    (Dec.returns_mul _ _).bind fun _ => by
      simp only [gt_iff_lt, ← min_def_lt, ← max_def_lt]
      exact Dec.returns_quoInt64 _ 100
  refine hreturns.congr ?_
  have hslope : 0 ≤ slope s.params x := slope_nonneg hparams hnonneg
  constructor
  · intro h
    obtain ⟨_, ⟨hsmall, hpower⟩, _, _, hfactor, _, hcurve, _⟩ := h
    exact ⟨hsmall, hpower, (Dec.fits_iff_of_nonneg hslope).mp hfactor,
      (fits_curve_iff hparams hnonneg hfactor).mp hcurve⟩
  · intro h
    have hlt : x < 2 ^ 130 := powerPercent_lt _ htokens h.power
    have hfactor : Dec.Fits (slope s.params x) := (Dec.fits_iff_of_nonneg hslope).mpr h.slope
    have hfitsX : Dec.Fits x := Dec.fits_of_lt_two_pow hnonneg hlt (by decide)
    have hfitsA : Dec.Fits s.params.maxZero.i :=
      Dec.fits_decOne_succ.of_le hparams.maxZero.1
        ((Dec.le_def.mp hparams.maxZero.2).trans (by show (decOne : ℤ) ≤ decOne + 1; omega))
    exact ⟨fits_percent hparams.cap.1 hparams.cap.2, ⟨h.total, h.power⟩,
      Dec.fits_sub hnonneg hparams.maxZero.1 hfitsX hfitsA,
      fits_quoRaw hnonneg hlt hparams.slopeVpImpact, hfactor, fits_percent hmin.1 hmin.2,
      (fits_curve_iff hparams hnonneg hfactor).mpr h.curve, by norm_num⟩

/-- What the larger validator's minimum needs is enough for the smaller one. -/
theorem InRange.of_le {tokens tokens' : ℤ} (h : InRange s tokens') (hparams : s.params.Valid)
    (htotal : 0 < s.staking.lastTotalPower) (h₀ : 0 ≤ tokens) (hle : tokens ≤ tokens') :
    InRange s tokens := by
  have hx := powerPercent_nonneg htotal h₀
  have hpercent := powerPercent_mono htotal hle
  refine ⟨h.total, (Int.tdiv_le_tdiv (by decide) hle).trans_lt h.power,
    (slope_mono hparams hpercent).trans_lt h.slope, ?_⟩
  rcases le_total (powerPercent s.staking.lastTotalPower tokens) s.params.maxZero.i with hA | hA
  · have hcurve := curve_nonpos hparams hx hA
    have hbound := curveBound_pos
    omega
  · have hcurve := curve_mono hparams hx hA hpercent
    have hlast := h.curve
    omega

end

/-! ### Bounded and monotone -/

/-- The minimum commissions of two validators are in order, not below staking's minimum and
    not above the larger of it and the cap, exactly when the larger stake is in range. -/
theorem calculateDynCommission_monotone_iff (s : State) (hparams : s.params.validate = .ok ())
    (hmin : s.staking.MinRateOk) (htotal : 0 < s.staking.lastTotalPower) (val₁ val₂ : Validator)
    (htokens : 0 ≤ val₁.tokens) (hle : val₁.tokens ≤ val₂.tokens) :
    (∃ rate₁ rate₂, calculateDynCommission s val₁ = some rate₁ ∧
      calculateDynCommission s val₂ = some rate₂ ∧ s.staking.minCommissionRate ≤ rate₁ ∧
      rate₁ ≤ rate₂ ∧ rate₂ ≤ max s.params.cap s.staking.minCommissionRate) ↔
      InRange s val₂.tokens := by
  have hvalid := Params.validate_eq_ok.mp hparams
  have hreturns₁ := returns_calculateDynCommission hvalid hmin htotal htokens
  have hreturns₂ := returns_calculateDynCommission hvalid hmin htotal (htokens.trans hle)
  constructor
  · rintro ⟨_, _, _, hrate₂, _⟩
    exact hreturns₂.isSome_iff.mp (by rw [hrate₂]; rfl)
  · intro hrange
    have hrange₁ := hrange.of_le hvalid htotal htokens hle
    have hmono := Dec.le_def.mp (clampedCurve_mono hvalid hmin
      (powerPercent_nonneg htotal htokens) (powerPercent_mono htotal hle))
    refine ⟨_, _, hreturns₁.1 hrange₁, hreturns₂.1 hrange, ?_, ?_, ?_⟩
    · have hfloor := Int.tdiv_le_tdiv (c := 100) (by norm_num)
        (le_clampedCurve s (powerPercent s.staking.lastTotalPower val₁.tokens))
      rw [Int.mul_tdiv_cancel _ (by norm_num)] at hfloor
      exact hfloor
    · exact Int.tdiv_le_tdiv (by norm_num) hmono
    · have hcap := Int.tdiv_le_tdiv (c := 100) (by norm_num)
        (clampedCurve_le s (powerPercent s.staking.lastTotalPower val₂.tokens))
      rw [Int.mul_tdiv_cancel _ (by norm_num)] at hcap
      exact hcap

/-! ### On the test's validators -/

/-- A validator with a power in whole units. -/
def validatorOfPower (power : ℤ) : Validator :=
  ⟨power * powerReduction, true, ⟨Dec.zero, Dec.one, Dec.one, 0⟩⟩

/-- The state of the source's test, with a slope base to choose. -/
def testState (slopeBase : Dec) : State :=
  ⟨⟨∅, 1000, Dec.zero, 0⟩, { defaultParams with slopeBase := slopeBase }, ∅⟩

theorem calculateDynCommission_monotone_test :
    ∃ rate₁ rate₂,
      calculateDynCommission (testState (Dec.ofInt 2)) (validatorOfPower 46) = some rate₁ ∧
      calculateDynCommission (testState (Dec.ofInt 2)) (validatorOfPower 950) = some rate₂ ∧
      Dec.zero ≤ rate₁ ∧ rate₁ ≤ rate₂ ∧ rate₂ ≤ max (Dec.withPrec 2 1) Dec.zero :=
  (calculateDynCommission_monotone_iff (testState (Dec.ofInt 2)) (by decide +kernel)
    ⟨by decide, by decide⟩ (by decide) (validatorOfPower 46) (validatorOfPower 950)
    (by decide) (by decide)).mpr ⟨by decide, by decide, by decide +kernel, by decide +kernel⟩

/-- A slope base of `10^76` passes the checks; with all of the power the product of the
    factors needs 319 bits. -/
theorem calculateDynCommission_panics :
    Dec.Fits (10 ^ 94) ∧ (testState ⟨10 ^ 94⟩).params.validate = .ok () ∧
      (testState ⟨10 ^ 94⟩).staking.MinRateOk ∧
      0 < (testState ⟨10 ^ 94⟩).staking.lastTotalPower ∧ 0 ≤ (validatorOfPower 1000).tokens ∧
      calculateDynCommission (testState ⟨10 ^ 94⟩) (validatorOfPower 1000) = none := by
  refine ⟨by decide +kernel, by decide +kernel, ⟨by decide, by decide⟩, by decide, by decide,
    by decide +kernel⟩

end TerraClassic.Dyncomm
