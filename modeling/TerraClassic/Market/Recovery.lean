import TerraClassic.Market.Pool

/-! # The recovery of the pool

    `ReplenishPools` takes the part `1 / PoolRecoveryPeriod` off the pool delta at
    the end of each block, truncated towards zero.  The period is a `uint64` that
    the code reads as an `int64`, and the parameter check only refuses zero: from
    `2^63` on the divisor is negative, and the delta grows.

    * `Recovers`: one block brings the delta closer to zero.
    * `recovery_run_iff`: over every run of blocks, with the periods governance
      sets in between, when all of them do.
-/

namespace TerraClassic.Market

/-- `validatePoolRecoveryPeriod`. -/
def validatePoolRecoveryPeriod (v : UInt64) : Except String Unit :=
  if v ≤ 0 then throw ("pool recovery period must be positive: " ++ toString v) else .ok ()

theorem validatePoolRecoveryPeriod_ok {v : UInt64} (h : validatePoolRecoveryPeriod v = .ok ()) :
    0 < v.toNat := by
  unfold validatePoolRecoveryPeriod at h
  split at h
  · cases h
  · next hpos =>
    have hpos : ¬ v.toNat ≤ (0 : UInt64).toNat := fun hle => hpos (UInt64.le_iff_toNat_le.mpr hle)
    exact Nat.pos_of_ne_zero (by simpa using hpos)

/-- The end of a block without swaps, at a recovery period. -/
def recover (delta : Dec) (period : UInt64) : Option Dec :=
  replenishPools { defaultParams with poolRecoveryPeriod := period } delta

/-- The end of a block only reads the period of the parameters. -/
theorem replenishPools_eq_recover (params : Params) (delta : Dec) :
    replenishPools params delta = recover delta params.poolRecoveryPeriod := rfl

/-- One block: the sign stays or the delta is zero, its size does not grow, and it falls unless it
    is below one unit of the last place for each block of the period. -/
structure Recovers (period : UInt64) (delta delta' : Dec) : Prop where
  nonneg : 0 ≤ delta.i → 0 ≤ delta'.i
  nonpos : delta.i ≤ 0 → delta'.i ≤ 0
  abs_le : |delta'.i| ≤ |delta.i|
  abs_lt : (period.toNat : ℤ) ≤ |delta.i| → |delta'.i| < |delta.i|

/-- The period is not negative as an `int64`, or the delta is below the size of what it is then. -/
def RecoverySafe (delta : Dec) (period : UInt64) : Prop :=
  period.toNat < 2 ^ 63 ∨ |delta.i| < 2 ^ 64 - period.toNat

/-! ### One block -/

/-- Truncated division moves towards zero, and does so from the divisor on. -/
theorem tdiv_eq_abs (x : ℤ) {p : ℤ} (hp : 0 < p) :
    ∃ n, 0 ≤ n ∧ n ≤ |x| ∧ (0 < n ↔ p ≤ |x|) ∧ x.tdiv p = if 0 ≤ x then n else -n := by
  have habs := abs_nonneg x
  refine ⟨|x| / p, Int.ediv_nonneg habs hp.le, Int.ediv_le_self _ habs, ?_, ?_⟩
  · have hone : 1 ≤ |x| / p ↔ 1 * p ≤ |x| := Int.le_ediv_iff_mul_le hp
    rw [one_mul] at hone
    exact hone
  · split
    · next hx => rw [abs_of_nonneg hx, Int.tdiv_eq_ediv_of_nonneg hx]
    · next hx =>
      rw [abs_of_neg (not_le.mp hx), ← Int.tdiv_eq_ediv_of_nonneg (by omega), Int.neg_tdiv,
        neg_neg]

/-- Taking off the part for a positive divisor. -/
theorem sub_tdiv_toward (x : ℤ) {p : ℤ} (hp : 0 < p) :
    (0 ≤ x → 0 ≤ x - x.tdiv p) ∧ (x ≤ 0 → x - x.tdiv p ≤ 0) ∧ |x - x.tdiv p| ≤ |x| ∧
      (p ≤ |x| → |x - x.tdiv p| < |x|) := by
  obtain ⟨n, hn, hle, hdiv, htdiv⟩ := tdiv_eq_abs x hp
  rw [htdiv]
  rcases le_or_gt 0 x with hx | hx
  · rw [if_pos hx]
    rw [abs_of_nonneg hx] at *
    rw [abs_of_nonneg (show 0 ≤ x - n by omega)]
    refine ⟨?_, ?_, ?_, fun hpx => ?_⟩
    · omega
    · omega
    · omega
    · have := hdiv.mpr hpx
      omega
  · rw [if_neg (not_le.mpr hx)]
    rw [abs_of_neg hx] at *
    rw [abs_of_nonpos (show x - -n ≤ 0 by omega)]
    refine ⟨?_, ?_, ?_, fun hpx => ?_⟩
    · omega
    · omega
    · omega
    · have := hdiv.mpr hpx
      omega

/-- For a negative divisor the part is added, from the divisor's size on. -/
theorem sub_tdiv_neg_away (x : ℤ) {d : ℤ} (hd : 0 < d) :
    (|x| < d → x - x.tdiv (-d) = x) ∧ (d ≤ |x| → |x| < |x - x.tdiv (-d)|) := by
  obtain ⟨n, hn, _, hdiv, htdiv⟩ := tdiv_eq_abs x hd
  rw [Int.tdiv_neg, htdiv]
  constructor
  · intro hlt
    have hzero : n = 0 := le_antisymm (not_lt.mp (fun h => not_lt.mpr (hdiv.mp h) hlt)) hn
    rw [hzero]
    split <;> omega
  · intro hle
    have hpos := hdiv.mpr hle
    rcases le_or_gt 0 x with hx | hx
    · rw [if_pos hx, abs_of_nonneg hx, abs_of_nonneg (by omega)]
      omega
    · rw [if_neg (not_le.mpr hx), abs_of_neg hx, abs_of_nonpos (by omega)]
      omega

theorem fits_of_abs_le {x y : ℤ} (h : |x| ≤ |y|) (hy : Dec.Fits y) : Dec.Fits x := by
  rw [← Int.natCast_natAbs, ← Int.natCast_natAbs] at h
  exact lt_of_le_of_lt (by exact_mod_cast h) hy

/-- What one block does: the delta less its truncated part, if that fits. -/
theorem returns_recover (delta : Dec) {period : UInt64} (hpos : 0 < period.toNat) :
    Returns (recover delta period)
      (Dec.Fits (delta.i - delta.i.tdiv (toInt64 period.toNat)))
      ⟨delta.i - delta.i.tdiv (toInt64 period.toNat)⟩ := by
  have hne : toInt64 period.toNat ≠ 0 := by
    rcases lt_or_ge period.toNat (2 ^ 63) with hlt | hge
    · rw [toInt64_of_lt (by omega) (by omega)]
      omega
    · have := period.toNat_lt
      rw [toInt64_of_ge (by omega) (by omega)]
      omega
  have hquo := (Dec.returns_quoInt64 delta (toInt64 period.toNat)).1 hne
  show Returns (delta.quoInt64 (toInt64 period.toNat) >>= fun amt => delta.sub amt) _ _
  rw [hquo]
  exact Dec.returns_checked _

theorem recover_fits {delta delta' : Dec} {period : UInt64}
    (h : recover delta period = some delta') : Dec.Fits delta'.i := by
  unfold recover replenishPools at h
  obtain ⟨amt, _, h⟩ := Option.bind_eq_some_iff.mp h
  obtain ⟨hfits, rfl⟩ := Dec.checked_eq_some.mp h
  exact hfits

/-- A block recovers exactly when the period is not negative as an `int64`, or there is nothing
    to take off. -/
theorem recovers_iff {delta : Dec} (hfits : Dec.Fits delta.i) {period : UInt64}
    (hpos : 0 < period.toNat) :
    (∃ delta', recover delta period = some delta' ∧ Recovers period delta delta') ↔
      RecoverySafe delta period := by
  have hreturns := returns_recover delta hpos
  have hlt := period.toNat_lt
  unfold RecoverySafe
  rcases lt_or_ge period.toNat (2 ^ 63) with hsmall | hlarge
  · rw [toInt64_of_lt (by omega) (by omega)] at hreturns
    obtain ⟨hnonneg, hnonpos, hle, hless⟩ :=
      sub_tdiv_toward delta.i (p := period.toNat) (by omega)
    refine ⟨fun _ => Or.inl hsmall, fun _ => ⟨_, hreturns.1 ?_, hnonneg, hnonpos, hle, hless⟩⟩
    exact fits_of_abs_le hle hfits
  · rw [toInt64_of_ge (by omega) (by omega),
      ← neg_sub (2 ^ 64 : ℤ) (period.toNat : ℤ)] at hreturns
    obtain ⟨hsame, hgrows⟩ := sub_tdiv_neg_away delta.i (d := 2 ^ 64 - period.toNat) (by omega)
    constructor
    · rintro ⟨delta', hrecover, hrecovers⟩
      refine Or.inr (not_le.mp (fun hle => ?_))
      rw [hreturns.1 (hreturns.isSome_iff.mp (by rw [hrecover]; rfl))] at hrecover
      rw [← Option.some.inj hrecover] at hrecovers
      exact absurd hrecovers.abs_le (not_le.mpr (hgrows hle))
    · rintro (hnot | hbelow)
      · omega
      · rw [hsame hbelow] at hreturns
        -- nothing is taken off, and nothing has to be
        refine ⟨delta, hreturns.1 hfits, id, id, le_rfl, ?_⟩
        intro hperiod
        omega

/-! ### Runs of blocks -/

/-- The size does not grow and the sign does not change. -/
def Closer (delta delta' : Dec) : Prop :=
  |delta'.i| ≤ |delta.i| ∧ (0 ≤ delta.i → 0 ≤ delta'.i) ∧ (delta.i ≤ 0 → delta'.i ≤ 0)

/-- Over every run of blocks without swaps, at periods that the parameter check accepts: every
    block returns and recovers, exactly when each of them meets `RecoverySafe`; and
    then all states of the run are no further from zero than the first, on the same side. -/
theorem recovery_run_iff (periods : List UInt64)
    (hvalid : ∀ period ∈ periods, validatePoolRecoveryPeriod period = .ok ()) (delta : Dec)
    (hfits : Dec.Fits delta.i) :
    (Run.Along recover (fun delta period =>
        ∃ delta', recover delta period = some delta' ∧ Recovers period delta delta')
        periods delta ↔
      Run.Along recover RecoverySafe periods delta) ∧
    (Run.Along recover RecoverySafe periods delta →
      ∀ done, done <+: periods → ∃ delta', Run.run recover done delta = some delta' ∧
        Closer delta delta') := by
  have hiff : Run.Along recover (fun delta period =>
      ∃ delta', recover delta period = some delta' ∧ Recovers period delta delta')
      periods delta ↔ Run.Along recover RecoverySafe periods delta :=
    Run.along_congr (I := fun delta => Dec.Fits delta.i) (fun _ _ _ h _ => recover_fits h)
      (fun period hperiod delta hfits =>
        recovers_iff hfits (validatePoolRecoveryPeriod_ok (hvalid period hperiod))) hfits
  refine ⟨hiff, fun hsafe done hdone => ?_⟩
  refine Run.exists_run_of_along (R := Closer) (fun delta => ⟨le_rfl, id, id⟩) ?_ ?_
    (hiff.mpr hsafe) hdone
  · rintro a b c ⟨hab, hab₀, hab₁⟩ ⟨hbc, hbc₀, hbc₁⟩
    exact ⟨hbc.trans hab, fun h => hbc₀ (hab₀ h), fun h => hbc₁ (hab₁ h)⟩
  · rintro delta period ⟨delta', hrecover, hrecovers⟩
    exact ⟨delta', hrecover, hrecovers.abs_le, hrecovers.nonneg, hrecovers.nonpos⟩

/-- A day's period, then one that is negative as an `int64` while the delta is below the size of
    what it is then. -/
theorem recovery_run_two_periods :
    ∃ delta', Run.run recover [14400, 0x8000000000000000] ⟨-100000⟩ = some delta' ∧
      Closer ⟨-100000⟩ delta' := by
  have hfirst : recover ⟨-100000⟩ 14400 = some ⟨-99994⟩ := by decide +kernel
  have hvalid : ∀ period ∈ [14400, 0x8000000000000000],
      validatePoolRecoveryPeriod period = .ok () :=
    List.forall_mem_cons.mpr ⟨by decide +kernel, List.forall_mem_singleton.mpr (by decide +kernel)⟩
  refine (recovery_run_iff [14400, 0x8000000000000000] hvalid ⟨-100000⟩
    (by decide +kernel)).2 ?_ _ (List.prefix_refl _)
  refine ⟨Or.inl (by decide +kernel), fun delta' hdelta' => ⟨Or.inr ?_, fun _ _ => trivial⟩⟩
  rw [hfirst] at hdelta'
  cases hdelta'
  decide +kernel

/-- The largest period is minus one as an `int64`: a block doubles the delta. -/
theorem recovery_doubles :
    validatePoolRecoveryPeriod 0xffffffffffffffff = .ok () ∧
      recover Dec.one 0xffffffffffffffff = some ⟨2 * decOne⟩ ∧
      ¬ Recovers 0xffffffffffffffff Dec.one ⟨2 * decOne⟩ := by
  exact ⟨by decide +kernel, by decide +kernel, fun h => absurd h.abs_le (by decide +kernel)⟩

end TerraClassic.Market
