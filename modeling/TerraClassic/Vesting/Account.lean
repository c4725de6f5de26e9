import TerraClassic.Vesting.Schedule

/-! # Lazy graded vesting accounts

    The account of `vesting_account.go`.  `GetVestedCoins` multiplies each coin of
    `OriginalVesting` with the vested ratio of its denom and rounds half to even; a coin
    without a schedule is vested.  `GetVestingCoins` subtracts the result from
    `OriginalVesting`, which panics if more has vested than there was.

    The vested amounts never decrease.  They end at the original amounts only if the sum of
    the ratios is near enough to one for the amount: `Validate` allows a distance of half
    a billionth, which is a whole unit from two billion units on.
-/

namespace TerraClassic.Vesting

/-- The fields of `BaseVestingAccount` that vesting reads. -/
structure BaseVestingAccount where
  originalVesting : Coins
  delegatedVesting : Coins
  /-- What `BaseAccount.Validate` returns. -/
  baseAccountValidate : Except String Unit
  original_valid : originalVesting.Valid
  delegated_valid : delegatedVesting.Valid

/-- `BaseVestingAccount.Validate`. -/
def BaseVestingAccount.validate (bva : BaseVestingAccount) : Except Error Unit :=
  if !bva.delegatedVesting.isAllLTE bva.originalVesting then
    .error (.plain "delegated vesting amount cannot be greater than original vesting amount")
  else bva.baseAccountValidate.mapError SdkError.plain

/-- `LockedCoinsFromVesting`. -/
def BaseVestingAccount.lockedCoinsFromVesting (bva : BaseVestingAccount) (vestingCoins : Coins) :
    Option Coins := do
  let delegated ← vestingCoins.min bva.delegatedVesting
  vestingCoins.sub delegated

/-- `LazyGradedVestingAccount`. -/
structure LazyGradedVestingAccount extends BaseVestingAccount where
  vestingSchedules : List VestingSchedule

namespace LazyGradedVestingAccount

/-- `GetVestingSchedule`. -/
def getVestingSchedule (lgva : LazyGradedVestingAccount) (denom : Denom) :
    Option VestingSchedule :=
  lgva.vestingSchedules.find? (fun vs => vs.denom = denom)

/-- One round of the loop of `GetVestedCoins`.  The coins are appended, and keep the order
    of `OriginalVesting`. -/
def addVestedCoin (lgva : LazyGradedVestingAccount) (blockTime : Int64) (vestedCoins : Coins)
    (ovc : Denom × ℤ) : Option Coins :=
  match lgva.getVestingSchedule ovc.1 with
  | some vestingSchedule => do
    let vestedRatio ← vestingSchedule.getVestedRatio blockTime
    let vested ← (Dec.ofInt ovc.2).mul vestedRatio
    if vested.roundInt = 0 then return vestedCoins
    else
      let coin ← Coins.newCoin ovc.1 vested.roundInt
      return vestedCoins.set coin.denom coin.amount
  | none => do
    let coin ← Coins.newCoin ovc.1 ovc.2
    return vestedCoins.set coin.denom coin.amount

/-- `GetVestedCoins`, with `blockTime.Unix()`. -/
def getVestedCoins (lgva : LazyGradedVestingAccount) (blockTime : Int64) : Option Coins :=
  lgva.originalVesting.entries.foldlM (lgva.addVestedCoin blockTime) ∅

/-- `GetVestingCoins`. -/
def getVestingCoins (lgva : LazyGradedVestingAccount) (blockTime : Int64) : Option Coins := do
  let vestedCoins ← lgva.getVestedCoins blockTime
  lgva.originalVesting.sub vestedCoins

/-- `LockedCoins`. -/
def lockedCoins (lgva : LazyGradedVestingAccount) (blockTime : Int64) : Option Coins := do
  let vestingCoins ← lgva.getVestingCoins blockTime
  lgva.lockedCoinsFromVesting vestingCoins

/-- One round of the loop of `Validate`; the map holds the denoms seen. -/
def validateVestingSchedule (denomMap : List Denom) (vestingSchedule : VestingSchedule) :
    Except Error (List Denom) :=
  if vestingSchedule.denom ∈ denomMap then
    .error (.plain ("cannot have multiple vesting schedules for " ++ vestingSchedule.denom))
  else do
    vestingSchedule.validate
    return vestingSchedule.denom :: denomMap

/-- `Validate`. -/
def validate (lgva : LazyGradedVestingAccount) : Except Error Unit := do
  let _ ← lgva.vestingSchedules.foldlM validateVestingSchedule []
  lgva.toBaseVestingAccount.validate

/-! ### Accepted accounts -/

/-- Every schedule of an accepted account is accepted. -/
theorem validate_schedules {lgva : LazyGradedVestingAccount} (h : lgva.validate = .ok ()) :
    ∀ vs ∈ lgva.vestingSchedules, vs.validate = .ok () := by
  obtain ⟨denoms, hloop, _⟩ := Run.bind_eq_ok.mp h
  generalize lgva.vestingSchedules = l at hloop
  generalize ([] : List Denom) = seen at hloop
  induction l generalizing seen with
  | nil =>
    intro vs hvs
    cases hvs
  | cons vs rest ih =>
    rw [List.foldlM_cons] at hloop
    obtain ⟨seen', hfirst, hrest⟩ := Run.bind_eq_ok.mp hloop
    unfold validateVestingSchedule at hfirst
    split at hfirst
    · cases hfirst
    · exact List.forall_mem_cons.mpr ⟨(Run.check_eq_ok.mp hfirst).1, ih seen' hrest⟩

theorem getVestingSchedule_mem {lgva : LazyGradedVestingAccount} {denom : Denom}
    {vs : VestingSchedule} (h : lgva.getVestingSchedule denom = some vs) :
    vs ∈ lgva.vestingSchedules :=
  List.mem_of_find?_eq_some h

/-! ### Vested amounts -/

/-- The raw vested ratio of a denom: one without a schedule. -/
def vestedRatio (lgva : LazyGradedVestingAccount) (blockTime : Int64) (denom : Denom) : ℤ :=
  match lgva.getVestingSchedule denom with
  | some vs => Release.released vs.pieces blockTime.toInt
  | none => decOne

/-- The vested amount of a coin. -/
def vestedAmt (lgva : LazyGradedVestingAccount) (blockTime : Int64) (coin : Denom × ℤ) : ℤ :=
  Dec.chopPrecisionAndRound (coin.2 * lgva.vestedRatio blockTime coin.1)

/-- The product of a coin with its ratio has at most 315 bits. -/
def CoinFits (lgva : LazyGradedVestingAccount) (blockTime : Int64) (coin : Denom × ℤ) : Prop :=
  ∀ vs, lgva.getVestingSchedule coin.1 = some vs →
    Dec.Fits (coin.2 * lgva.vestedRatio blockTime coin.1)

theorem vestedRatio_of_schedule {lgva : LazyGradedVestingAccount} {blockTime : Int64}
    {denom : Denom} {vs : VestingSchedule} (h : lgva.getVestingSchedule denom = some vs) :
    lgva.vestedRatio blockTime denom = Release.released vs.pieces blockTime.toInt := by
  unfold vestedRatio
  rw [h]

theorem vestedAmt_of_no_schedule {lgva : LazyGradedVestingAccount} {blockTime : Int64}
    {coin : Denom × ℤ} (h : lgva.getVestingSchedule coin.1 = none) :
    lgva.vestedAmt blockTime coin = coin.2 := by
  unfold vestedAmt vestedRatio
  rw [h]
  show Dec.chopPrecisionAndRound (coin.2 * decOne) = coin.2
  rw [mul_comm, Dec.chop_mul]

section

variable {lgva : LazyGradedVestingAccount}

theorem schedule_valid (h : lgva.validate = .ok ()) {denom : Denom} {vs : VestingSchedule}
    (hvs : lgva.getVestingSchedule denom = some vs) : ∀ p ∈ vs.pieces, p.Valid :=
  pieces_valid (VestingSchedule.validate_eq_ok.mp
    (validate_schedules h vs (getVestingSchedule_mem hvs))).1

theorem vestedRatio_nonneg (h : lgva.validate = .ok ()) (blockTime : Int64) (denom : Denom) :
    0 ≤ lgva.vestedRatio blockTime denom := by
  cases hvs : lgva.getVestingSchedule denom with
  | none =>
    unfold vestedRatio
    rw [hvs]
    exact Dec.decOne_posInt.le
  | some vs =>
    rw [vestedRatio_of_schedule hvs]
    exact Release.released_nonneg (schedule_valid h hvs) _

theorem vestedRatio_mono (h : lgva.validate = .ok ()) {t₁ t₂ : Int64} (ht : t₁ ≤ t₂)
    (denom : Denom) : lgva.vestedRatio t₁ denom ≤ lgva.vestedRatio t₂ denom := by
  cases hvs : lgva.getVestingSchedule denom with
  | none =>
    unfold vestedRatio
    rw [hvs]
  | some vs =>
    rw [vestedRatio_of_schedule hvs, vestedRatio_of_schedule hvs]
    exact Release.released_mono (schedule_valid h hvs) (Int64.le_iff_toInt_le.mp ht)

theorem original_pos {coin : Denom × ℤ} (hcoin : coin ∈ lgva.originalVesting.entries) :
    0 < coin.2 :=
  lgva.original_valid.positive (SortedMap.mem_entries.mp hcoin)

theorem vestedAmt_nonneg (h : lgva.validate = .ok ()) (blockTime : Int64) {coin : Denom × ℤ}
    (hcoin : 0 ≤ coin.2) : 0 ≤ lgva.vestedAmt blockTime coin :=
  Dec.chop_nonneg (mul_nonneg hcoin (vestedRatio_nonneg h blockTime coin.1))

theorem newCoin_of_original {coin : Denom × ℤ} (hcoin : coin ∈ lgva.originalVesting.entries)
    {amount : ℤ} (hamount : 0 ≤ amount) :
    Coins.newCoin coin.1 amount = some ⟨coin.1, amount⟩ := by
  unfold Coins.newCoin
  rw [if_pos ⟨lgva.original_valid.denom (SortedMap.mem_entries.mp hcoin), hamount⟩]

/-- One round: only the product of the amount with the ratio can panic. -/
theorem returns_addVestedCoin (h : lgva.validate = .ok ()) (blockTime : Int64)
    {coin : Denom × ℤ} (hcoin : coin ∈ lgva.originalVesting.entries) (vestedCoins : Coins) :
    Returns (lgva.addVestedCoin blockTime vestedCoins coin) (lgva.CoinFits blockTime coin)
      (if lgva.vestedAmt blockTime coin = 0 then vestedCoins
        else vestedCoins.set coin.1 (lgva.vestedAmt blockTime coin)) := by
  have hpos := original_pos hcoin
  unfold addVestedCoin
  cases hvs : lgva.getVestingSchedule coin.1 with
  | none =>
    -- a coin without a schedule has vested from the start
    have hfits : lgva.CoinFits blockTime coin := by
      intro vs hsome
      rw [hvs] at hsome
      cases hsome
    rw [vestedAmt_of_no_schedule hvs, if_neg hpos.ne']
    show Returns (Coins.newCoin coin.1 coin.2 >>= _) _ _
    rw [newCoin_of_original hcoin hpos.le]
    exact (Returns.pure _).congr (iff_of_true trivial hfits)
  | some vs =>
    have hratio := VestingSchedule.getVestedRatio_eq
      (validate_schedules h vs (getVestingSchedule_mem hvs)) blockTime
    have hfits : lgva.CoinFits blockTime coin ↔
        Dec.Fits (coin.2 * lgva.vestedRatio blockTime coin.1) :=
      ⟨fun hall => hall vs hvs, fun hfits _ _ => hfits⟩
    -- the amount has no decimals, so this product is not rounded
    have hmul : Returns ((Dec.ofInt coin.2).mul ⟨lgva.vestedRatio blockTime coin.1⟩)
        (Dec.Fits (coin.2 * lgva.vestedRatio blockTime coin.1))
        ⟨coin.2 * lgva.vestedRatio blockTime coin.1⟩ := by
      have hraw := Dec.returns_mul (Dec.ofInt coin.2) ⟨lgva.vestedRatio blockTime coin.1⟩
      have hchop : Dec.chopPrecisionAndRound ((Dec.ofInt coin.2).i *
          lgva.vestedRatio blockTime coin.1) = coin.2 * lgva.vestedRatio blockTime coin.1 := by
        rw [← Dec.chop_mul (coin.2 * lgva.vestedRatio blockTime coin.1)]
        unfold Dec.ofInt
        congr 1
        ring
      rwa [hchop] at hraw
    rw [← vestedRatio_of_schedule hvs] at hratio
    show Returns (vs.getVestedRatio blockTime >>= _) _ _
    rw [hratio]
    refine (hmul.bind_some ?_).congr hfits.symm
    show (if lgva.vestedAmt blockTime coin = 0 then some vestedCoins else
      Coins.newCoin coin.1 (lgva.vestedAmt blockTime coin) >>= _) = _
    split
    · rfl
    · rw [newCoin_of_original hcoin (vestedAmt_nonneg h blockTime hpos.le)]
      rfl

/-- `GetVestedCoins` of an accepted account. -/
theorem returns_getVestedCoins (h : lgva.validate = .ok ()) (blockTime : Int64) :
    Returns (lgva.getVestedCoins blockTime)
      (∀ coin ∈ lgva.originalVesting.entries, lgva.CoinFits blockTime coin)
      (Coins.collect (lgva.vestedAmt blockTime) lgva.originalVesting) :=
  Returns.foldlM (fun _ hcoin => returns_addVestedCoin h blockTime hcoin) ∅

/-! ### Vested amounts over time -/

/-- The raw ratio sum bounds the vested ratio, and is reached at the end. -/
theorem vestedRatio_le (h : lgva.validate = .ok ()) {denom : Denom} {vs : VestingSchedule}
    (hvs : lgva.getVestingSchedule denom = some vs) (blockTime : Int64) :
    lgva.vestedRatio blockTime denom ≤ vs.sumRatio := by
  rw [vestedRatio_of_schedule hvs]
  exact Release.released_le_total (schedule_valid h hvs) _

theorem vestedRatio_at_end (h : lgva.validate = .ok ()) {blockTime : Int64}
    (hend : ∀ vs ∈ lgva.vestingSchedules, ∀ s ∈ vs.schedules, s.endTime ≤ blockTime)
    {denom : Denom} {vs : VestingSchedule} (hvs : lgva.getVestingSchedule denom = some vs) :
    lgva.vestedRatio blockTime denom = vs.sumRatio := by
  rw [vestedRatio_of_schedule hvs]
  apply Release.released_of_finish_le (schedule_valid h hvs)
  intro p hp
  obtain ⟨s, hs, rfl⟩ := List.mem_map.mp hp
  exact Int64.le_iff_toInt_le.mp (hend vs (getVestingSchedule_mem hvs) s hs)

theorem vestedAmt_mono (h : lgva.validate = .ok ()) {t₁ t₂ : Int64} (ht : t₁ ≤ t₂)
    {coin : Denom × ℤ} (hcoin : 0 ≤ coin.2) :
    lgva.vestedAmt t₁ coin ≤ lgva.vestedAmt t₂ coin :=
  Rounding.roundHalfEven_mono decOne
    (mul_le_mul_of_nonneg_left (vestedRatio_mono h ht coin.1) hcoin)

theorem coinFits_of_le (h : lgva.validate = .ok ()) {t₁ t₂ : Int64} (ht : t₁ ≤ t₂)
    {coin : Denom × ℤ} (hcoin : 0 ≤ coin.2) (hfits : lgva.CoinFits t₂ coin) :
    lgva.CoinFits t₁ coin := by
  intro vs hvs
  exact (hfits vs hvs).of_le (mul_nonneg hcoin (vestedRatio_nonneg h t₁ coin.1))
    (mul_le_mul_of_nonneg_left (vestedRatio_mono h ht coin.1) hcoin)

theorem coinFits_of_lt (h : lgva.validate = .ok ()) (blockTime : Int64) {coin : Denom × ℤ}
    (hcoin : 0 ≤ coin.2) (hlt : coin.2 < 2 ^ 255) : lgva.CoinFits blockTime coin := by
  intro vs hvs
  obtain ⟨_, hsum⟩ := VestingSchedule.validate_eq_ok.mp
    (validate_schedules h vs (getVestingSchedule_mem hvs))
  have hratio : lgva.vestedRatio blockTime coin.1 < 2 ^ 60 :=
    (vestedRatio_le h hvs blockTime).trans_lt (bounds_of_near_one hsum).2
  have hnonneg := vestedRatio_nonneg h blockTime coin.1
  apply Dec.fits_of_lt_two_pow (mul_nonneg hcoin hnonneg) _ le_rfl
  exact (mul_lt_mul'' hlt hratio hcoin hnonneg).trans_eq (pow_add 2 255 60).symm

/-- Coin by coin, what has vested at one time is no more than at a later one. -/
theorem collect_mono (h : lgva.validate = .ok ()) {t₁ t₂ : Int64} (ht : t₁ ≤ t₂) (d : Denom) :
    (Coins.collect (lgva.vestedAmt t₁) lgva.originalVesting).amountOf d ≤
      (Coins.collect (lgva.vestedAmt t₂) lgva.originalVesting).amountOf d := by
  rw [Coins.amountOf_collect, Coins.amountOf_collect]
  cases hget : lgva.originalVesting.get d with
  | none => exact le_rfl
  | some a => exact vestedAmt_mono h ht (lgva.original_valid.positive hget).le

end

/-- Vested coins never un-vest: the ratios of an accepted account are always computed,
    without a division by zero; if the coins vested at a time are returned, then so are
    those of every earlier time, and none of them is more; and amounts below `2^255` are
    always returned. -/
theorem vested_coins_mono {lgva : LazyGradedVestingAccount} (h : lgva.validate = .ok ())
    {t₁ t₂ : Int64} (ht : t₁ ≤ t₂) :
    (∀ vs ∈ lgva.vestingSchedules, (vs.getVestedRatio t₁).isSome) ∧
    (∀ vested₂, lgva.getVestedCoins t₂ = some vested₂ →
      ∃ vested₁, lgva.getVestedCoins t₁ = some vested₁ ∧
        ∀ d, vested₁.amountOf d ≤ vested₂.amountOf d) ∧
    ((∀ d a, lgva.originalVesting.get d = some a → a < 2 ^ 255) →
      (lgva.getVestedCoins t₂).isSome) := by
  have hreturns₁ := returns_getVestedCoins h t₁
  have hreturns₂ := returns_getVestedCoins h t₂
  refine ⟨?_, ?_, ?_⟩
  · intro vs hvs
    rw [VestingSchedule.getVestedRatio_eq (validate_schedules h vs hvs)]
    rfl
  · intro vested₂ hvested₂
    have hfits₂ := hreturns₂.isSome_iff.mp (hvested₂ ▸ rfl)
    have hfits₁ : ∀ coin ∈ lgva.originalVesting.entries, lgva.CoinFits t₁ coin :=
      fun coin hcoin => coinFits_of_le h ht (original_pos hcoin).le (hfits₂ coin hcoin)
    rw [hreturns₂.1 hfits₂] at hvested₂
    cases hvested₂
    exact ⟨_, hreturns₁.1 hfits₁, collect_mono h ht⟩
  · intro hlt
    rw [hreturns₂.isSome_iff]
    intro coin hcoin
    exact coinFits_of_lt h t₂ (original_pos hcoin).le
      (hlt coin.1 coin.2 (SortedMap.mem_entries.mp hcoin))

/-- 3000 luna, half of which vest until 100 and the other part until 200. -/
def twoPartAccount (ratio : Dec) : LazyGradedVestingAccount where
  originalVesting := Coins.ofCoin microLunaDenom 3000000000
  delegatedVesting := ∅
  baseAccountValidate := .ok ()
  original_valid := Coins.valid_ofCoin (by decide) (by decide)
  delegated_valid := Coins.valid_empty
  vestingSchedules := [⟨microLunaDenom, [⟨0, 100, Dec.withPrec 5 1⟩, ⟨0, 200, ratio⟩]⟩]

theorem vested_coins_mono_two_parts :
    (twoPartAccount (Dec.withPrec 5 1)).validate = .ok () ∧
    ∃ vested, (twoPartAccount (Dec.withPrec 5 1)).getVestedCoins 50 = some vested ∧
      vested.amountOf microLunaDenom ≤ 2250000000 := by
  refine ⟨by decide +kernel, ?_⟩
  obtain ⟨vested, hvested, hle⟩ := (@vested_coins_mono (twoPartAccount (Dec.withPrec 5 1))
    (by decide +kernel) 50 100 (by decide)).2.1 (Coins.ofCoin microLunaDenom 2250000000)
    (by decide +kernel)
  exact ⟨vested, hvested, hle microLunaDenom⟩

/-- An account of the largest amount, all of which vests until 100. -/
def maxIntAccount : LazyGradedVestingAccount where
  originalVesting := Coins.ofCoin microLunaDenom (2 ^ 256 - 1)
  delegatedVesting := ∅
  baseAccountValidate := .ok ()
  original_valid := Coins.valid_ofCoin (by decide) (by decide)
  delegated_valid := Coins.valid_empty
  vestingSchedules := [⟨microLunaDenom, [⟨0, 100, Dec.ofInt 1⟩]⟩]

/-- Half of the largest amount vests at 50; at 99 the product with the ratio overflows, and
    the vested coins of the later time do not exist. -/
theorem vested_coins_overflow :
    maxIntAccount.validate = .ok () ∧ (50 : Int64) ≤ 99 ∧
    maxIntAccount.getVestedCoins 50 = some (Coins.ofCoin microLunaDenom (2 ^ 255)) ∧
    ¬ ∃ vested₁ vested₂, maxIntAccount.getVestedCoins 50 = some vested₁ ∧
      maxIntAccount.getVestedCoins 99 = some vested₂ ∧
        ∀ d, vested₁.amountOf d ≤ vested₂.amountOf d := by
  refine ⟨by decide +kernel, by decide, by decide +kernel, ?_⟩
  rintro ⟨_, _, _, hvested₂, _⟩
  have hpanic : maxIntAccount.getVestedCoins 99 = none := by decide +kernel
  rw [hpanic] at hvested₂
  cases hvested₂

/-! ### Solvency -/

section

variable {lgva : LazyGradedVestingAccount}

/-- The delegated part of the vesting coins can always be subtracted. -/
theorem lockedCoinsFromVesting_isSome (bva : BaseVestingAccount) {vestingCoins : Coins}
    (hpos : ∀ d a, vestingCoins.get d = some a → 0 < a) :
    (bva.lockedCoinsFromVesting vestingCoins).isSome := by
  obtain ⟨least, hmin, hle⟩ :=
    Coins.min_returns hpos (fun _ _ hget => bva.delegated_valid.positive hget)
  unfold BaseVestingAccount.lockedCoinsFromVesting
  rw [hmin]
  exact (Coins.sub_isSome_iff vestingCoins least).mpr hle

/-- No more has vested than there was, and neither getter panics. -/
def SolventAt (lgva : LazyGradedVestingAccount) (blockTime : Int64) : Prop :=
  (∃ vested, lgva.getVestedCoins blockTime = some vested ∧
    ∀ d, vested.amountOf d ≤ lgva.originalVesting.amountOf d) ∧
  (lgva.getVestingCoins blockTime).isSome ∧ (lgva.lockedCoins blockTime).isSome

/-- The two getters follow the vested coins. -/
theorem solventAt_of_vested {blockTime : Int64} {vested : Coins}
    (hvested : lgva.getVestedCoins blockTime = some vested)
    (hle : ∀ d, vested.amountOf d ≤ lgva.originalVesting.amountOf d) :
    lgva.SolventAt blockTime := by
  obtain ⟨vesting, hsub⟩ := Option.isSome_iff_exists.mp
    ((Coins.sub_isSome_iff lgva.originalVesting vested).mpr hle)
  have hvesting : lgva.getVestingCoins blockTime = some vesting := by
    unfold getVestingCoins
    rw [hvested]
    exact hsub
  refine ⟨⟨vested, hvested, hle⟩, by rw [hvesting]; rfl, ?_⟩
  unfold lockedCoins
  rw [hvesting]
  exact lockedCoinsFromVesting_isSome _ (fun _ _ hget => Coins.sub_positive hsub hget)

/-- The amount of a coin for which a ratio sum is near enough to one: the error stays below
    half a unit, or is half a unit of an even amount. -/
def RatioExact (amount sumRatio : ℤ) : Prop :=
  Dec.Fits (amount * sumRatio) ∧
    (2 * (amount * |sumRatio - decOne|) < decOne ∨
      2 * (amount * |sumRatio - decOne|) = decOne ∧ Even amount)

theorem chop_eq_self_iff {amount sumRatio : ℤ} (hamount : 0 ≤ amount) :
    Dec.chopPrecisionAndRound (amount * sumRatio) = amount ↔
      2 * (amount * |sumRatio - decOne|) < decOne ∨
        2 * (amount * |sumRatio - decOne|) = decOne ∧ Even amount := by
  have hdist : |amount * sumRatio - decOne * amount| = amount * |sumRatio - decOne| := by
    rw [mul_comm (decOne : ℤ) amount, ← mul_sub, abs_mul, abs_of_nonneg hamount]
  unfold Dec.chopPrecisionAndRound
  rw [Rounding.roundHalfEven_eq_iff decOne Dec.decOne_pos]
  unfold Rounding.Nearest
  rw [hdist]

/-- A ratio sum that is exact for every coin that vests by a schedule. -/
def RatiosExact (lgva : LazyGradedVestingAccount) : Prop :=
  ∀ denom amount vs, lgva.originalVesting.get denom = some amount →
    lgva.getVestingSchedule denom = some vs → RatioExact amount vs.sumRatio

/-- With exact sums no coin vests beyond its amount, which is reached at the end. -/
theorem vestedAmt_le_of_exact (h : lgva.validate = .ok ()) (hexact : lgva.RatiosExact)
    (blockTime : Int64) {denom : Denom} {amount : ℤ}
    (hget : lgva.originalVesting.get denom = some amount) :
    lgva.vestedAmt blockTime (denom, amount) ≤ amount := by
  have hpos := lgva.original_valid.positive hget
  cases hvs : lgva.getVestingSchedule denom with
  | none => exact (vestedAmt_of_no_schedule hvs).le
  | some vs =>
    -- rounding is monotone, and rounds the whole sum to the amount
    have hround := (chop_eq_self_iff hpos.le).mpr (hexact denom amount vs hget hvs).2
    refine le_of_le_of_eq ?_ hround
    exact Rounding.roundHalfEven_mono decOne
      (mul_le_mul_of_nonneg_left (vestedRatio_le h hvs blockTime) hpos.le)

theorem vestedAmt_at_end (h : lgva.validate = .ok ()) {blockTime : Int64}
    (hend : ∀ vs ∈ lgva.vestingSchedules, ∀ s ∈ vs.schedules, s.endTime ≤ blockTime)
    {denom : Denom} {amount : ℤ} {vs : VestingSchedule}
    (hvs : lgva.getVestingSchedule denom = some vs) :
    lgva.vestedAmt blockTime (denom, amount) =
      Dec.chopPrecisionAndRound (amount * vs.sumRatio) := by
  unfold vestedAmt
  rw [vestedRatio_at_end h hend hvs]

theorem coinFits_of_exact (h : lgva.validate = .ok ()) (hexact : lgva.RatiosExact)
    (blockTime : Int64) {coin : Denom × ℤ} (hcoin : coin ∈ lgva.originalVesting.entries) :
    lgva.CoinFits blockTime coin := by
  intro vs hvs
  have hpos := original_pos hcoin
  refine (hexact _ _ vs (SortedMap.mem_entries.mp hcoin) hvs).1.of_le
    (mul_nonneg hpos.le (vestedRatio_nonneg h blockTime coin.1)) ?_
  exact mul_le_mul_of_nonneg_left (vestedRatio_le h hvs blockTime) hpos.le

theorem noZero_original : lgva.originalVesting.NoZero :=
  fun _ _ hget => (lgva.original_valid.positive hget).ne'

theorem getVestedCoins_of_exact (h : lgva.validate = .ok ()) (hexact : lgva.RatiosExact)
    (blockTime : Int64) :
    lgva.getVestedCoins blockTime =
      some (Coins.collect (lgva.vestedAmt blockTime) lgva.originalVesting) :=
  (returns_getVestedCoins h blockTime).1 (fun _ => coinFits_of_exact h hexact blockTime)

theorem solventAt_of_exact (h : lgva.validate = .ok ()) (hexact : lgva.RatiosExact)
    (blockTime : Int64) : lgva.SolventAt blockTime := by
  refine solventAt_of_vested (getVestedCoins_of_exact h hexact blockTime) ?_
  intro d
  rw [Coins.amountOf_collect]
  cases hget : lgva.originalVesting.get d with
  | none => exact (Coins.amountOf_of_get_none hget).ge
  | some amount =>
    rw [Coins.amountOf_of_get hget]
    exact vestedAmt_le_of_exact h hexact blockTime hget

/-- With exact sums everything has vested after the last end time. -/
theorem fully_vested_of_exact (h : lgva.validate = .ok ()) (hexact : lgva.RatiosExact)
    {blockTime : Int64}
    (hend : ∀ vs ∈ lgva.vestingSchedules, ∀ s ∈ vs.schedules, s.endTime ≤ blockTime) :
    lgva.getVestedCoins blockTime = some lgva.originalVesting := by
  rw [getVestedCoins_of_exact h hexact blockTime]
  congr 1
  apply Coins.ext_amountOf (Coins.noZero_collect _ _) noZero_original
  intro d
  rw [Coins.amountOf_collect]
  cases hget : lgva.originalVesting.get d with
  | none => exact (Coins.amountOf_of_get_none hget).symm
  | some amount =>
    rw [Coins.amountOf_of_get hget]
    cases hvs : lgva.getVestingSchedule d with
    | none => exact vestedAmt_of_no_schedule hvs
    | some vs =>
      show lgva.vestedAmt blockTime (d, amount) = amount
      rw [vestedAmt_at_end h hend hvs]
      exact (chop_eq_self_iff (lgva.original_valid.positive hget).le).mpr
        (hexact d amount vs hget hvs).2

/-- An account that is fully vested after its last end time has exact sums. -/
theorem exact_of_fully_vested (h : lgva.validate = .ok ()) {blockTime : Int64}
    (hend : ∀ vs ∈ lgva.vestingSchedules, ∀ s ∈ vs.schedules, s.endTime ≤ blockTime)
    (hvested : lgva.getVestedCoins blockTime = some lgva.originalVesting) :
    lgva.RatiosExact := by
  intro denom amount vs hget hvs
  have hreturns := returns_getVestedCoins h blockTime
  have hfits := hreturns.isSome_iff.mp (hvested ▸ rfl)
  have hamount : lgva.vestedAmt blockTime (denom, amount) = amount := by
    have hcollect := Coins.amountOf_collect (lgva.vestedAmt blockTime) lgva.originalVesting denom
    rw [hreturns.1 hfits] at hvested
    rw [Option.some.inj hvested, Coins.amountOf_of_get hget, hget] at hcollect
    exact hcollect.symm
  have hfit := hfits (denom, amount) (SortedMap.mem_entries.mpr hget) vs hvs
  rw [vestedRatio_at_end h hend hvs] at hfit
  rw [vestedAmt_at_end h hend hvs] at hamount
  exact ⟨hfit, (chop_eq_self_iff (lgva.original_valid.positive hget).le).mp hamount⟩

end

/-- An accepted account is solvent at every time and fully vested from its last end time
    on exactly when, for each coin with a schedule, the ratio sum is within half a unit of
    the coin's amount (and the product with the amount does not overflow). -/
theorem account_solvent_iff {lgva : LazyGradedVestingAccount} (h : lgva.validate = .ok ()) :
    ((∀ blockTime, lgva.SolventAt blockTime) ∧
      ∀ blockTime, (∀ vs ∈ lgva.vestingSchedules, ∀ s ∈ vs.schedules, s.endTime ≤ blockTime) →
        lgva.getVestedCoins blockTime = some lgva.originalVesting) ↔ lgva.RatiosExact := by
  constructor
  · rintro ⟨_, hfull⟩
    -- the last time there is: every schedule has ended
    have hend : ∀ vs ∈ lgva.vestingSchedules, ∀ s ∈ vs.schedules, s.endTime ≤ Int64.maxValue :=
      fun _ _ s _ => Int64.le_iff_toInt_le.mpr s.endTime.toInt_le
    exact exact_of_fully_vested h hend (hfull Int64.maxValue hend)
  · intro hexact
    exact ⟨solventAt_of_exact h hexact, fun _ => fully_vested_of_exact h hexact⟩

theorem account_solvent_two_parts :
    (twoPartAccount (Dec.withPrec 5 1)).validate = .ok () ∧
    (twoPartAccount (Dec.withPrec 5 1)).getVestedCoins 200 =
      some (twoPartAccount (Dec.withPrec 5 1)).originalVesting := by
  refine ⟨by decide +kernel, ?_⟩
  refine ((account_solvent_iff (by decide +kernel)).mpr ?_).2 200 (by decide +kernel)
  intro denom amount vs hget hvs
  have hsum : vs.sumRatio = decOne := by
    obtain rfl := List.mem_singleton.mp (getVestingSchedule_mem hvs)
    decide +kernel
  have hamount : amount = 3000000000 := by
    obtain ⟨_, rfl⟩ := Prod.mk.inj (List.mem_singleton.mp (SortedMap.mem_entries.mpr hget))
    rfl
  rw [hsum, hamount]
  exact ⟨by decide +kernel, .inl (by decide +kernel)⟩

/-- Ratios of `0.5` and `0.5000000005` are accepted, and two units more than the 3000 luna
    vest: both getters panic from then on. -/
theorem account_not_solvent :
    (twoPartAccount (Dec.withPrec 5000000005 10)).validate = .ok () ∧
    (twoPartAccount (Dec.withPrec 5000000005 10)).getVestedCoins 200 =
      some (Coins.ofCoin microLunaDenom 3000000002) ∧
    (twoPartAccount (Dec.withPrec 5000000005 10)).getVestingCoins 200 = none ∧
    (twoPartAccount (Dec.withPrec 5000000005 10)).lockedCoins 200 = none ∧
    ¬ (twoPartAccount (Dec.withPrec 5000000005 10)).SolventAt 200 := by
  have hvesting : (twoPartAccount (Dec.withPrec 5000000005 10)).getVestingCoins 200 = none := by
    decide +kernel
  refine ⟨by decide +kernel, by decide +kernel, hvesting, by decide +kernel, ?_⟩
  rintro ⟨_, hsome, _⟩
  rw [hvesting] at hsome
  cases hsome

end LazyGradedVestingAccount

end TerraClassic.Vesting
