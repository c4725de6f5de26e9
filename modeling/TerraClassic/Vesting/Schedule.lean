import TerraClassic.Lib.Release
import TerraClassic.Lib.Returns
import TerraClassic.Sdk.Coins
import TerraClassic.Sdk.Errors

/-! # Vesting schedules

    The schedules of `schedule.go`: each vests a ratio of a coin between two times, and
    `GetVestedRatio` adds up what they have vested.  `Validate` adds up the ratios and
    compares the sum with one after rounding it to nine decimals, so that it accepts
    sums up to half a billionth away from one (`VestingSchedule.validate_eq_ok`).

    Times are `int64`.  The vested ratio is the released amount of `Lib/Release`.
-/

namespace TerraClassic.Vesting

/-- The errors of `Validate`, and a panic. -/
abbrev Error : Type := SdkError Empty

/-- `Schedule`. -/
structure Schedule where
  startTime : Int64
  endTime : Int64
  ratio : Dec
  deriving DecidableEq

/-- `Schedule.Validate`. -/
def Schedule.validate (s : Schedule) : Except Error Unit :=
  if s.startTime < 0 then .error (.plain "vesting start-time cannot be negative")
  else if s.endTime < s.startTime then
    .error (.plain "vesting start-time cannot be before end-time")
  else if s.ratio ≤ Dec.zero then
    .error (.plain "vesting ratio cannot be smaller than or equal with zero")
  else .ok ()

/-- `VestingSchedule`. -/
structure VestingSchedule where
  denom : Denom
  schedules : List Schedule
  deriving DecidableEq

/-- One round of the loop of `GetVestedRatio`. -/
def addVestedRatio (blockTime : Int64) (sumRatio : Dec) (s : Schedule) : Option Dec :=
  if blockTime < s.startTime then some sumRatio
  else if blockTime < s.endTime then do
    let scaled ← s.ratio.mulInt (blockTime - s.startTime).toInt
    let ratio ← scaled.quoInt64 (s.endTime - s.startTime).toInt
    sumRatio.add ratio
  else sumRatio.add s.ratio

/-- `GetVestedRatio`. -/
def VestingSchedule.getVestedRatio (vs : VestingSchedule) (blockTime : Int64) : Option Dec :=
  vs.schedules.foldlM (addVestedRatio blockTime) Dec.zero

/-- One round of the loop of `VestingSchedule.Validate`. -/
def validateSchedule (sumRatio : Dec) (s : Schedule) : Except Error Dec := do
  s.validate
  SdkError.orPanic (sumRatio.add s.ratio)

/-- The scale to which `Validate` rounds the sum of the ratios. -/
def fixedPointDecimals : ℤ := 1000000000

/-- `VestingSchedule.Validate`. -/
def VestingSchedule.validate (vs : VestingSchedule) : Except Error Unit := do
  let sumRatio ← vs.schedules.foldlM validateSchedule Dec.zero
  let scaled ← SdkError.orPanic (sumRatio.mulInt fixedPointDecimals)
  let rounded ← SdkError.orPanic scaled.roundInt64
  let total ← SdkError.orPanic ((Dec.ofInt rounded).quoInt64 fixedPointDecimals)
  if total = Dec.one then .ok () else .error (.plain "vesting total ratio must be one")

/-! ### What `Validate` accepts -/

/-- A schedule as a piece of `Lib/Release`: the raw ratio between the two times. -/
def Schedule.piece (s : Schedule) : Release.Piece := ⟨s.startTime.toInt, s.endTime.toInt, s.ratio.i⟩

def VestingSchedule.pieces (vs : VestingSchedule) : List Release.Piece :=
  vs.schedules.map Schedule.piece

/-- The raw sum of the ratios. -/
def VestingSchedule.sumRatio (vs : VestingSchedule) : ℤ := Release.total vs.pieces

/-- A schedule that `Validate` accepts. -/
structure Schedule.Valid (s : Schedule) : Prop where
  start_nonneg : 0 ≤ s.startTime.toInt
  order : s.startTime.toInt ≤ s.endTime.toInt
  ratio_pos : 0 < s.ratio.i

theorem Schedule.validate_eq_ok {s : Schedule} : s.validate = .ok () ↔ s.Valid := by
  unfold Schedule.validate
  constructor
  · intro h
    split_ifs at h with hstart horder hratio
    refine ⟨?_, ?_, ?_⟩
    · simpa [Int64.lt_iff_toInt_lt] using hstart
    · simpa [Int64.lt_iff_toInt_lt] using horder
    · simpa [Dec.le_def, Dec.zero] using hratio
  · intro h
    rw [if_neg, if_neg, if_neg]
    · simpa [Dec.le_def, Dec.zero] using h.ratio_pos
    · simpa [Int64.lt_iff_toInt_lt] using h.order
    · simpa [Int64.lt_iff_toInt_lt] using h.start_nonneg

theorem Schedule.Valid.piece {s : Schedule} (h : s.Valid) : s.piece.Valid :=
  ⟨h.order, h.ratio_pos.le⟩

theorem validateSchedule_eq_ok {sumRatio d : Dec} {s : Schedule} :
    validateSchedule sumRatio s = .ok d ↔
      s.Valid ∧ Dec.Fits (sumRatio.i + s.ratio.i) ∧ d = ⟨sumRatio.i + s.ratio.i⟩ := by
  unfold validateSchedule
  rw [Run.check_eq_ok, Schedule.validate_eq_ok, SdkError.orPanic_eq_ok]
  exact and_congr_right (fun _ => Dec.checked_eq_some)

/-- The loop of `Validate`: as the ratios are positive, only the last sum can overflow. -/
theorem foldlM_validateSchedule {l : List Schedule} {z : ℤ} (hz : 0 ≤ z) (hfits : Dec.Fits z)
    {d : Dec} :
    l.foldlM validateSchedule ⟨z⟩ = .ok d ↔ (∀ s ∈ l, s.Valid) ∧
      Dec.Fits (z + (l.map (fun s => s.ratio.i)).sum) ∧
      d = ⟨z + (l.map (fun s => s.ratio.i)).sum⟩ := by
  induction l generalizing z with
  | nil =>
    show Except.ok (⟨z⟩ : Dec) = .ok d ↔ _
    simp [hfits, eq_comm]
  | cons s rest ih =>
    rw [List.foldlM_cons, Run.bind_eq_ok, List.map_cons, List.sum_cons, ← add_assoc]
    constructor
    · rintro ⟨d', hs, hrest⟩
      obtain ⟨hvalid, hfits', rfl⟩ := validateSchedule_eq_ok.mp hs
      have hnonneg : 0 ≤ z + s.ratio.i := add_nonneg hz hvalid.ratio_pos.le
      obtain ⟨hall, hlast⟩ := (ih hnonneg hfits').mp hrest
      exact ⟨List.forall_mem_cons.mpr ⟨hvalid, hall⟩, hlast⟩
    · rintro ⟨hall, hlast⟩
      obtain ⟨hvalid, hrest⟩ := List.forall_mem_cons.mp hall
      have hpos := hvalid.ratio_pos
      have hsum : 0 ≤ (rest.map (fun s => s.ratio.i)).sum :=
        List.sum_nonneg (List.forall_mem_map.mpr (fun s hs => (hrest s hs).ratio_pos.le))
      have hfits' : Dec.Fits (z + s.ratio.i) := hlast.1.of_le (by omega) (by omega)
      exact ⟨_, validateSchedule_eq_ok.mpr ⟨hvalid, hfits', rfl⟩,
        (ih (by omega) hfits').mpr ⟨hrest, hlast⟩⟩

theorem VestingSchedule.sumRatio_eq (vs : VestingSchedule) :
    vs.sumRatio = (vs.schedules.map (fun s => s.ratio.i)).sum := by
  unfold VestingSchedule.sumRatio VestingSchedule.pieces Release.total
  rw [List.map_map]
  rfl

/-- The total is one exactly when the sum rounds to a billion billionths. -/
theorem ofInt_quoInt64_eq_one {n : ℤ} {d : Dec}
    (h : (Dec.ofInt n).quoInt64 fixedPointDecimals = some d) :
    d = Dec.one ↔ n = fixedPointDecimals := by
  have hd : d = ⟨n * 1000000000⟩ := by
    cases h
    unfold Dec.ofInt fixedPointDecimals decOne
    congr 1
    rw [show n * ((10 ^ 18 : ℕ) : ℤ) = n * 1000000000 * 1000000000 by push_cast; ring]
    exact Int.mul_tdiv_cancel _ (by norm_num)
  rw [hd]
  unfold Dec.one fixedPointDecimals decOne
  rw [Dec.mk.injEq]
  push_cast
  omega

/-- The rounding to nine decimals, in raw values. -/
theorem round_scaled_iff (x : ℤ) :
    Dec.chopPrecisionAndRound (x * fixedPointDecimals) = fixedPointDecimals ↔
      2 * |x - decOne| ≤ 1000000000 := by
  unfold Dec.chopPrecisionAndRound fixedPointDecimals
  rw [Rounding.roundHalfEven_eq_iff decOne Dec.decOne_pos]
  unfold Rounding.Nearest
  have hdist : |x * 1000000000 - (decOne : ℤ) * 1000000000| = |x - decOne| * 1000000000 := by
    rw [← sub_mul, abs_mul]
    norm_num
  rw [hdist]
  have hone : (decOne : ℤ) = 1000000000 * 1000000000 := by
    unfold decOne
    norm_num
  have heven : Even (1000000000 : ℤ) := by decide
  constructor
  · rintro (h | ⟨h, _⟩)
    · omega
    · omega
  · intro h
    rcases h.lt_or_eq with hlt | heq
    · left
      omega
    · right
      exact ⟨by omega, heven⟩

theorem bounds_of_near_one {x : ℤ} (h : 2 * |x - decOne| ≤ 1000000000) :
    0 ≤ x ∧ x < 2 ^ 60 := by
  have hcases := abs_le.mp (by omega : |x - decOne| ≤ 500000000)
  unfold decOne at hcases
  push_cast at hcases
  constructor
  · omega
  · omega

/-- `Validate` accepts valid schedules whose ratios sum to one within half a billionth. -/
theorem VestingSchedule.validate_eq_ok {vs : VestingSchedule} :
    vs.validate = .ok () ↔
      (∀ s ∈ vs.schedules, s.Valid) ∧ 2 * |vs.sumRatio - decOne| ≤ 1000000000 := by
  unfold VestingSchedule.validate
  have hloop := @foldlM_validateSchedule vs.schedules 0 le_rfl Dec.fits_zero
  rw [zero_add, ← VestingSchedule.sumRatio_eq] at hloop
  constructor
  · intro h
    obtain ⟨d, hd, h⟩ := Run.bind_eq_ok.mp h
    obtain ⟨hall, hfits, rfl⟩ := hloop.mp hd
    obtain ⟨scaled, hscaled, h⟩ := Run.bind_eq_ok.mp h
    obtain ⟨rounded, hrounded, h⟩ := Run.bind_eq_ok.mp h
    obtain ⟨total, htotal, h⟩ := Run.bind_eq_ok.mp h
    rw [SdkError.orPanic_eq_ok] at hscaled hrounded htotal
    refine ⟨hall, (round_scaled_iff vs.sumRatio).mp ?_⟩
    have hone : total = Dec.one := by
      by_contra hne
      rw [if_neg hne] at h
      cases h
    obtain ⟨_, rfl⟩ := Dec.checked_eq_some.mp hscaled
    unfold Dec.roundInt64 at hrounded
    split_ifs at hrounded
    cases hrounded
    exact (ofInt_quoInt64_eq_one htotal).mp hone
  · rintro ⟨hall, hsum⟩
    have hround := (round_scaled_iff vs.sumRatio).mpr hsum
    obtain ⟨hnonneg, hlt⟩ := bounds_of_near_one hsum
    have hfits : Dec.Fits vs.sumRatio := Dec.fits_of_lt_two_pow hnonneg hlt (by decide)
    have hfits' : Dec.Fits (vs.sumRatio * fixedPointDecimals) := by
      unfold fixedPointDecimals
      exact Dec.fits_of_lt_two_pow (by omega) (by omega : _ < (2 : ℤ) ^ 91) (by decide)
    have hrounded : (⟨vs.sumRatio * fixedPointDecimals⟩ : Dec).roundInt64 =
        some fixedPointDecimals := by
      unfold Dec.roundInt64 Dec.roundInt
      rw [hround, if_pos (by decide)]
    rw [Run.bind_eq_ok]
    refine ⟨⟨vs.sumRatio⟩, hloop.mpr ⟨hall, hfits, rfl⟩, ?_⟩
    unfold Dec.mulInt
    rw [Dec.checked_of_fits hfits']
    show (SdkError.orPanic (⟨vs.sumRatio * fixedPointDecimals⟩ : Dec).roundInt64 >>= _) = _
    rw [hrounded]
    rfl

/-! ### The vested ratio -/

/-- No time between two times of a schedule overflows. -/
theorem toInt_sub {a b : Int64} (ha : 0 ≤ a.toInt) (hab : a.toInt ≤ b.toInt) :
    (b - a).toInt = b.toInt - a.toInt := by
  have hb := b.toInt_lt
  rw [Int64.toInt_sub]
  exact Int.bmod_eq_of_le (by omega) (by omega)

/-- One round adds what the schedule has released. -/
theorem returns_addVestedRatio {s : Schedule} (hs : s.Valid) (hratio : s.ratio.i < 2 ^ 60)
    (blockTime : Int64) {z : ℤ} (hz : Dec.Fits z) :
    Returns (addVestedRatio blockTime ⟨z⟩ s)
      (Dec.Fits (z + s.piece.released blockTime.toInt))
      ⟨z + s.piece.released blockTime.toInt⟩ := by
  unfold addVestedRatio Release.Piece.released Schedule.piece
  simp only [Int64.lt_iff_toInt_lt]
  split_ifs with hstart hend
  · rw [add_zero]
    exact (Returns.pure _).congr (iff_of_true trivial hz)
  · have htime := toInt_sub hs.start_nonneg (not_lt.mp hstart)
    have hspan := toInt_sub hs.start_nonneg hs.order
    have hpos : 0 ≤ s.ratio.i * (blockTime.toInt - s.startTime.toInt) :=
      mul_nonneg hs.ratio_pos.le (by omega)
    have hmul : s.ratio.mulInt (blockTime - s.startTime).toInt =
        some ⟨s.ratio.i * (blockTime.toInt - s.startTime.toInt)⟩ := by
      have hlt : s.ratio.i * (blockTime.toInt - s.startTime.toInt) < 2 ^ 60 * 2 ^ 63 := by
        have := blockTime.toInt_lt
        have := hs.start_nonneg
        exact mul_lt_mul'' hratio (by omega) hs.ratio_pos.le (by omega)
      unfold Dec.mulInt
      rw [htime, Dec.checked_of_fits]
      exact Dec.fits_of_lt_two_pow hpos (hlt.trans_eq (pow_add 2 60 63).symm) (by decide)
    -- the time now is before the end, so the two times differ
    have hquo : (⟨s.ratio.i * (blockTime.toInt - s.startTime.toInt)⟩ : Dec).quoInt64
        (s.endTime - s.startTime).toInt =
        some ⟨s.ratio.i * (blockTime.toInt - s.startTime.toInt) /
          (s.endTime.toInt - s.startTime.toInt)⟩ := by
      unfold Dec.quoInt64
      rw [hspan, if_neg (by omega), Int.tdiv_eq_ediv_of_nonneg hpos]
    rw [hmul]
    show Returns ((⟨s.ratio.i * (blockTime.toInt - s.startTime.toInt)⟩ : Dec).quoInt64
      (s.endTime - s.startTime).toInt >>= _) _ _
    rw [hquo]
    exact Dec.returns_add ⟨z⟩ _
  · exact Dec.returns_add ⟨z⟩ s.ratio

theorem pieces_valid {vs : VestingSchedule} (h : ∀ s ∈ vs.schedules, s.Valid) :
    ∀ p ∈ vs.pieces, p.Valid := by
  intro p hp
  obtain ⟨s, hs, rfl⟩ := List.mem_map.mp hp
  exact (h s hs).piece

/-- The vested ratio of an accepted schedule: `GetVestedRatio` neither divides by zero
    nor overflows, and returns what the pieces have released. -/
theorem VestingSchedule.getVestedRatio_eq {vs : VestingSchedule} (h : vs.validate = .ok ())
    (blockTime : Int64) :
    vs.getVestedRatio blockTime = some ⟨Release.released vs.pieces blockTime.toInt⟩ := by
  obtain ⟨hall, hsum⟩ := VestingSchedule.validate_eq_ok.mp h
  have hvalid := pieces_valid hall
  obtain ⟨_, hlt⟩ := bounds_of_near_one hsum
  have hratio : ∀ s ∈ vs.schedules, s.ratio.i < 2 ^ 60 := fun s hs =>
    (Release.le_total hvalid (List.mem_map_of_mem hs)).trans_lt hlt
  have hreleased : Release.released vs.pieces blockTime.toInt =
      (vs.schedules.map (fun s => s.piece.released blockTime.toInt)).sum := by
    unfold Release.released VestingSchedule.pieces
    rw [List.map_map]
    rfl
  have hloop : Returns (vs.schedules.foldlM (addVestedRatio blockTime) ⟨0⟩)
      ((∀ s ∈ vs.schedules, s.Valid) ∧
        Dec.Fits (0 + (vs.schedules.map (fun s => s.piece.released blockTime.toInt)).sum))
      ⟨0 + (vs.schedules.map (fun s => s.piece.released blockTime.toInt)).sum⟩ :=
    Returns.foldlM_sum Dec.Fits.of_le
      (fun s hs => Release.Piece.released_nonneg (hall s hs).piece blockTime.toInt)
      (fun s hs z _ hz => (returns_addVestedRatio (hall s hs) (hratio s hs) blockTime hz).congr
        (and_iff_right (hall s hs)).symm) le_rfl Dec.fits_zero
  rw [zero_add, ← hreleased] at hloop
  refine hloop.1 ⟨hall, Dec.fits_of_lt_two_pow (Release.released_nonneg hvalid _) ?_
    (by decide : 60 ≤ maxDecBitLen)⟩
  exact (Release.released_le_total hvalid _).trans_lt hlt

end TerraClassic.Vesting
