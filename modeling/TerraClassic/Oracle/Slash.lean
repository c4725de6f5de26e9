import TerraClassic.Oracle.Safety
import Mathlib.Algebra.Order.Field.Rat
import Mathlib.Tactic.Linarith
import Mathlib.Tactic.Qify
import Mathlib.Tactic.FieldSimp

/-! # Whom the slash window punishes

    `SlashAndResetMissCounters` subtracts the misses from the number `N` of vote
    periods in `uint64`, reads the difference as an `int64`, divides it by `N` with
    truncation and compares the quotient with `MinValidPerWindow`.  Here it is
    shown that none of this loses anything while `N < 10^18`: the operators
    punished are those with `N - misses < MinValidPerWindow * N` in the rationals.

    * `slashAndResetAll`: the loop with the counters it deletes.
    * `FallsShort`: the rule, in the rationals.
    * `slash_window_punishes`: every slash of the window, and no other.
-/

namespace TerraClassic.Oracle

/-! ### The loop and the counters it deletes -/

/-- The calls of `Slash` and `Jail` made so far, and the counters left. -/
structure SlashState where
  slashes : List SlashEvent
  missCounters : SortedMap ValAddr UInt64
  deriving DecidableEq

/-- One round with the `DeleteMissCounter` at its end. -/
def slashAndDelete (staking : StakingKeeper) (params : Params) (height : BlockHeight)
    (periods : ℕ) (s : SlashState) (entry : ValAddr × UInt64) : Option SlashState := do
  let slashes ← slashStep staking params height periods s.slashes entry
  return ⟨slashes, s.missCounters.erase entry.1⟩

/-- `SlashAndResetMissCounters` with the table it leaves. -/
def slashAndResetAll (staking : StakingKeeper) (params : Params) (height : BlockHeight)
    (missCounters : SortedMap ValAddr UInt64) : Option SlashState := do
  let periods ← votePeriodsPerWindow params
  missCounters.entries.foldlM (slashAndDelete staking params height periods) ⟨[], missCounters⟩

theorem foldlM_slashAndDelete (staking : StakingKeeper) (params : Params) (height : BlockHeight)
    (periods : ℕ) (l : List (ValAddr × UInt64)) (s : SlashState) :
    l.foldlM (slashAndDelete staking params height periods) s =
      (l.foldlM (slashStep staking params height periods) s.slashes).map (fun slashes =>
        ⟨slashes, (l.map Prod.fst).foldl SortedMap.erase s.missCounters⟩) := by
  induction l generalizing s with
  | nil => rfl
  | cons e rest ih =>
    rw [List.foldlM_cons, List.foldlM_cons]
    unfold slashAndDelete
    cases h : slashStep staking params height periods s.slashes e with
    | none => rfl
    | some slashes => exact ih ⟨slashes, s.missCounters.erase e.1⟩

/-- No counter is left, whoever is slashed. -/
theorem slashAndResetAll_eq (staking : StakingKeeper) (params : Params) (height : BlockHeight)
    (missCounters : SortedMap ValAddr UInt64) :
    slashAndResetAll staking params height missCounters =
      (slashAndResetMissCounters staking params height missCounters).map (⟨·, ∅⟩) := by
  unfold slashAndResetAll slashAndResetMissCounters
  cases votePeriodsPerWindow params with
  | none => rfl
  | some periods =>
    show missCounters.entries.foldlM _ _ = _
    rw [foldlM_slashAndDelete]
    have hempty : (missCounters.entries.map Prod.fst).foldl SortedMap.erase missCounters = ∅ :=
      missCounters.foldl_erase_keys
    rw [hempty]
    rfl

/-! ### The rate -/

/-- The vote periods in a slash window. -/
def periodsPerWindow (params : Params) : ℕ :=
  params.slashWindow.toNat / params.votePeriod.toNat

/-- The `uint64` and the `int64` with the same low bits. -/
theorem toInt64_toUint64 (x : ℤ) : toInt64 (toUint64 x) = toInt64 x := by
  unfold toUint64
  rw [Int.toNat_of_nonneg (Int.emod_nonneg x (by norm_num))]
  exact Int.emod_bmod x (2 ^ 64)

theorem toInt64_sub_left (x y : ℤ) : toInt64 (toUint64 x - y) = toInt64 (x - y) := by
  have h := toInt64_add_left (toUint64 x) (-y)
  rw [toInt64_toUint64, toInt64_add_left] at h
  exact h.symm

theorem toUint64_natCast {n : ℕ} (h : n < 2 ^ 64) : toUint64 n = n := by
  unfold toUint64
  rw [Int.emod_eq_of_lt (Int.natCast_nonneg n) (by exact_mod_cast h), Int.toNat_natCast]

/-- Dividing the scaled number and dropping the decimals is the integer division. -/
theorem quo_truncateInt (x y : ℤ) : ((x * decOne).tdiv y).tdiv decOne = x.tdiv y := by
  have hnat : ∀ n d : ℕ, ((n * decOne : ℤ).tdiv d).tdiv decOne = (n : ℤ).tdiv d := by
    intro n d
    have hscaled : n * decOne / d / decOne = n / d := by
      rw [Nat.div_div_eq_div_mul, Nat.mul_div_mul_right _ _ Dec.decOne_pos]
    rw [← Int.ofNat_tdiv, ← hscaled, ← Nat.cast_mul, Int.ofNat_tdiv, Int.ofNat_tdiv]
  obtain ⟨n, rfl | rfl⟩ := x.eq_nat_or_neg
  · obtain ⟨d, rfl | rfl⟩ := y.eq_nat_or_neg
    · exact hnat n d
    · rw [Int.tdiv_neg, Int.tdiv_neg, Int.neg_tdiv, hnat]
  · obtain ⟨d, rfl | rfl⟩ := y.eq_nat_or_neg
    · rw [neg_mul, Int.neg_tdiv, Int.neg_tdiv, Int.neg_tdiv, hnat]
    · rw [neg_mul, Int.neg_tdiv_neg, Int.neg_tdiv_neg, hnat]

/-- `SlashWindow / VotePeriod` as the code reads them, in `int64`. -/
def windowQuotient (params : Params) : ℤ :=
  (toInt64 params.slashWindow.toNat).tdiv (toInt64 params.votePeriod.toNat)

theorem returns_votePeriodsPerWindow (params : Params) :
    Returns (votePeriodsPerWindow params)
      (toInt64 params.votePeriod.toNat ≠ 0 ∧
        toInt64 (windowQuotient params) = windowQuotient params)
      (toUint64 (windowQuotient params)) := by
  have hquo := Dec.returns_quoInt64 (Dec.ofInt (toInt64 params.slashWindow.toNat))
    (toInt64 params.votePeriod.toNat)
  have htrunc : (⟨(Dec.ofInt (toInt64 params.slashWindow.toNat)).i.tdiv
      (toInt64 params.votePeriod.toNat)⟩ : Dec).truncateInt = windowQuotient params := by
    unfold Dec.truncateInt Dec.ofInt windowQuotient
    rw [quo_truncateInt]
  refine hquo.bind (fun _ => ?_)
  rw [htrunc]
  exact ⟨fun h => if_pos h, fun h => if_neg h⟩

/-- The wrap of the subtraction and the change of sign cancel. -/
theorem returns_validVoteRate {quotient : ℤ} (hrange : toInt64 quotient = quotient)
    (misses : UInt64) :
    Returns (validVoteRate (toUint64 quotient) misses) (quotient ≠ 0)
      ⟨(toInt64 (quotient - misses.toNat) * decOne).tdiv quotient⟩ := by
  unfold validVoteRate
  rw [toInt64_toUint64, toInt64_toUint64, toInt64_sub_left, hrange]
  exact Dec.returns_quoInt64 (Dec.ofInt (toInt64 (quotient - misses.toNat))) quotient

theorem votePeriodsPerWindow_eq {params : Params} (hpos : 1 ≤ params.votePeriod.toNat)
    (hle : params.votePeriod.toNat ≤ params.slashWindow.toNat)
    (hwindow : params.slashWindow.toNat < 2 ^ 63) :
    votePeriodsPerWindow params = some (periodsPerWindow params) := by
  have hperiods : periodsPerWindow params < 2 ^ 63 := (Nat.div_le_self _ _).trans_lt hwindow
  have hperiod : toInt64 params.votePeriod.toNat = params.votePeriod.toNat :=
    toInt64_of_lt (by omega) (by omega)
  have hquotient : windowQuotient params = periodsPerWindow params := by
    unfold windowQuotient periodsPerWindow
    rw [hperiod, toInt64_of_lt (by omega) (by omega), Int.ofNat_tdiv]
  rw [(returns_votePeriodsPerWindow params).1, hquotient, toUint64_natCast (by omega)]
  rw [hperiod, hquotient]
  exact ⟨by omega, toInt64_of_lt (by omega) (by omega)⟩

/-- While the counter is at most `2^63`, the difference is what it says. -/
theorem validVoteRate_eq {periods : ℕ} {misses : UInt64} (hpos : 0 < periods)
    (hlt : periods < 2 ^ 63) (hmisses : misses.toNat ≤ 2 ^ 63) :
    validVoteRate periods misses =
      some ⟨(((periods : ℤ) - misses.toNat) * decOne).tdiv periods⟩ := by
  have hrange : toInt64 (periods : ℤ) = periods := toInt64_of_lt (by omega) (by omega)
  have hrate := (returns_validVoteRate hrange misses).1 (by omega)
  rw [toUint64_natCast (by omega), toInt64_of_lt (by omega) (by omega)] at hrate
  exact hrate

/-- The truncated quotient of a number scaled by `10^18` is on the same side of a bound that is
    not negative as the exact one.  For a negative number the truncation could
    reach zero, but not with a divisor below `10^18`. -/
theorem tdiv_lt_iff {z periods bound : ℤ} (hpos : 0 < periods) (hlt : periods < decOne)
    (hbound : 0 ≤ bound) : (z * decOne).tdiv periods < bound ↔ z * decOne < bound * periods := by
  rcases le_or_gt 0 z with hz | hz
  · rw [Int.tdiv_eq_ediv_of_nonneg (by positivity), Int.ediv_lt_iff_lt_mul hpos]
  · have hneg : (z * decOne).tdiv periods < 0 := by
      have hdiv := Int.mul_tdiv_add_tmod (z * decOne) periods
      have hmod := Int.lt_tmod_of_pos (z * decOne) hpos
      by_contra hnot
      have hmul : 0 ≤ periods * (z * decOne).tdiv periods :=
        mul_nonneg hpos.le (not_lt.mp hnot)
      have hscaled : z * decOne ≤ -1 * decOne :=
        mul_le_mul_of_nonneg_right (by omega) Dec.decOne_posInt.le
      omega
    have hbelow : z * decOne < 0 := mul_neg_of_neg_of_pos hz Dec.decOne_posInt
    have habove : 0 ≤ bound * periods := mul_nonneg hbound hpos.le
    exact ⟨fun _ => hbelow.trans_le habove, fun _ => hneg.trans_le hbound⟩

/-! ### The rule -/

/-- The valid votes are fewer than the minimum share of the window's vote periods. -/
def FallsShort (params : Params) (misses : ℕ) : Prop :=
  (periodsPerWindow params : ℚ) - misses <
    params.minValidPerWindow.i / decOne * periodsPerWindow params

instance decidableFallsShort (params : Params) (misses : ℕ) :
    Decidable (FallsShort params misses) :=
  inferInstanceAs (Decidable (_ < _))

theorem fallsShort_iff (params : Params) (misses : ℕ) :
    FallsShort params misses ↔
      ((periodsPerWindow params : ℤ) - misses) * decOne <
        params.minValidPerWindow.i * periodsPerWindow params := by
  have hD : (0 : ℚ) < decOne := by exact_mod_cast Dec.decOne_pos
  unfold FallsShort
  rw [div_mul_eq_mul_div, lt_div_iff₀ hD]
  exact_mod_cast Iff.rfl

/-- The arguments of `Slash` for a validator. -/
def slashEvent (params : Params) (height : BlockHeight) (validator : Validator) : SlashEvent :=
  ⟨validator.consAddr.getD "", (height.val : ℤ) - 1 - 1, validator.consensusPower,
    params.slashFraction⟩

/-- The operator is a bonded validator that is not jailed and falls short. -/
def Punished (staking : StakingKeeper) (params : Params) (missCounters : SortedMap ValAddr UInt64)
    (operator : ValAddr) (validator : Validator) : Prop :=
  staking.validators.get operator = some validator ∧ validator.bonded = true ∧
    validator.jailed = false ∧
    ∃ misses, missCounters.get operator = some misses ∧ FallsShort params misses.toNat

/-- The validator punished for a counter, if there is one. -/
def punishedBy (staking : StakingKeeper) (params : Params) (entry : ValAddr × UInt64) :
    Option (ValAddr × Validator) :=
  ((staking.validators.get entry.1).filter (fun v =>
    decide (v.bonded = true ∧ v.jailed = false ∧ FallsShort params entry.2.toNat))).map
      (Prod.mk entry.1)

theorem punishedBy_fst {staking : StakingKeeper} {params : Params} {e : ValAddr × UInt64}
    {p : ValAddr × Validator} (h : punishedBy staking params e = some p) : p.1 = e.1 := by
  obtain ⟨v, _, rfl⟩ := Option.map_eq_some_iff.mp h
  rfl

theorem mem_punished_iff {staking : StakingKeeper} {params : Params}
    {missCounters : SortedMap ValAddr UInt64} {a : ValAddr} {v : Validator} :
    (a, v) ∈ missCounters.entries.filterMap (punishedBy staking params) ↔
      Punished staking params missCounters a v := by
  rw [List.mem_filterMap]
  constructor
  · rintro ⟨e, he, hp⟩
    obtain ⟨w, hw, hpair⟩ := Option.map_eq_some_iff.mp hp
    obtain ⟨rfl, rfl⟩ := Prod.mk.inj hpair
    obtain ⟨hget, hrule⟩ := Option.filter_eq_some_iff.mp hw
    obtain ⟨hbonded, hjailed, hshort⟩ := of_decide_eq_true hrule
    exact ⟨hget, hbonded, hjailed, e.2, SortedMap.mem_entries.mp he, hshort⟩
  · rintro ⟨hget, hbonded, hjailed, misses, hmisses, hshort⟩
    refine ⟨(a, misses), SortedMap.mem_entries.mpr hmisses, ?_⟩
    have hrule : (staking.validators.get a).filter (fun w => decide (w.bonded = true ∧
        w.jailed = false ∧ FallsShort params misses.toNat)) = some v :=
      Option.filter_eq_some_iff.mpr ⟨hget, decide_eq_true ⟨hbonded, hjailed, hshort⟩⟩
    unfold punishedBy
    rw [hrule]
    rfl

/-- An operator has one counter, so it is punished once. -/
theorem punished_nodup (staking : StakingKeeper) (params : Params)
    (missCounters : SortedMap ValAddr UInt64) :
    ((missCounters.entries.filterMap (punishedBy staking params)).map Prod.fst).Nodup := by
  have hkeys : missCounters.entries.Pairwise (fun e e' => e.1 ≠ e'.1) :=
    missCounters.sorted.imp (fun hlt => hlt.ne)
  rw [List.Nodup, List.pairwise_map, List.pairwise_filterMap]
  refine hkeys.imp (fun hne p hp p' hp' => ?_)
  rw [punishedBy_fst hp, punishedBy_fst hp']
  exact hne

/-! ### The loop -/

theorem filterMap_eq_flatMap_toList {α β : Type} (f : α → Option β) (l : List α) :
    l.filterMap f = l.flatMap (fun a => (f a).toList) := by
  induction l with
  | nil => rfl
  | cons a rest ih => cases h : f a <;> simp [h, ih]

section
variable {staking : StakingKeeper} {params : Params}

theorem rate_lt_iff {misses : UInt64} (hpos : 0 < periodsPerWindow params)
    (hlt : periodsPerWindow params < 10 ^ 18) (hmin : 0 ≤ params.minValidPerWindow.i) :
    (⟨(((periodsPerWindow params : ℤ) - misses.toNat) * decOne).tdiv (periodsPerWindow params)⟩ :
      Dec) < params.minValidPerWindow ↔ FallsShort params misses.toNat := by
  rw [Dec.lt_def, fallsShort_iff]
  exact tdiv_lt_iff (by omega) (by unfold decOne; omega) hmin

/-- One round slashes the punished validator and nobody else. -/
theorem slashStep_eq (height : BlockHeight) (hpos : 0 < periodsPerWindow params)
    (hlt : periodsPerWindow params < 10 ^ 18) (hmin : 0 ≤ params.minValidPerWindow.i)
    {e : ValAddr × UInt64} (hmisses : e.2.toNat ≤ 2 ^ 63)
    (hknown : (staking.validators.get e.1).isSome) (slashes : List SlashEvent) :
    slashStep staking params height (periodsPerWindow params) slashes e =
      some (slashes ++
        ((punishedBy staking params e).map (fun p => slashEvent params height p.2)).toList) := by
  obtain ⟨v, hv⟩ := Option.isSome_iff_exists.mp hknown
  unfold slashStep punishedBy
  rw [validVoteRate_eq hpos (by omega) hmisses, hv, Option.bind_eq_bind, Option.bind_some]
  simp only [rate_lt_iff hpos hlt hmin]
  by_cases hshort : FallsShort params e.2.toNat
  · rw [if_pos hshort]
    by_cases hb : v.bonded = true ∧ v.jailed = false
    · obtain ⟨consAddr, hconsAddr⟩ := Option.isSome_iff_exists.mp (staking.consAddr_of_get hv)
      simp [Option.filter, hb, hshort, slashEvent, hconsAddr]
    · have hnot : ¬ (v.bonded && !v.jailed) = true := by
        simpa [not_and] using hb
      simp [Option.filter, hnot, hshort]
  · rw [if_neg hshort]
    simp [hshort]

end

/-- The slash window punishes every bonded operator that is not jailed and whose valid votes are
    fewer than the minimum share of the vote periods, compared in the rationals; each once, and
    no one else; and no counter is left. -/
theorem slash_window_punishes (staking : StakingKeeper) (params : Params) (height : BlockHeight)
    (missCounters : SortedMap ValAddr UInt64)
    (hperiod : 1 ≤ params.votePeriod.toNat)
    (hle : params.votePeriod.toNat ≤ params.slashWindow.toNat)
    (hwindow : params.slashWindow.toNat < 2 ^ 63)
    (hperiods : periodsPerWindow params < 10 ^ 18)
    (hmin : InUnit params.minValidPerWindow)
    (hmisses : ∀ a misses, missCounters.get a = some misses → misses.toNat ≤ 2 ^ 63)
    (hknown : ∀ a, (missCounters.get a).isSome → (staking.validators.get a).isSome) :
    ∃ punished : List (ValAddr × Validator),
      (punished.map Prod.fst).Nodup ∧
      (∀ a v, (a, v) ∈ punished ↔ Punished staking params missCounters a v) ∧
      slashAndResetAll staking params height missCounters =
        some ⟨punished.map (fun p => slashEvent params height p.2), ∅⟩ := by
  have hpos : 0 < periodsPerWindow params := Nat.div_pos hle (by omega)
  refine ⟨missCounters.entries.filterMap (punishedBy staking params),
    punished_nodup staking params missCounters, fun a v => mem_punished_iff, ?_⟩
  rw [slashAndResetAll_eq]
  unfold slashAndResetMissCounters
  rw [votePeriodsPerWindow_eq hperiod hle hwindow, Option.bind_eq_bind, Option.bind_some]
  -- every round returns, and appends the event of its operator
  have hstep : ∀ e ∈ missCounters.entries, ∀ slashes,
      slashStep staking params height (periodsPerWindow params) slashes e =
        some (slashes ++
          ((punishedBy staking params e).map (fun p => slashEvent params height p.2)).toList) := by
    intro e he slashes
    have hget := SortedMap.mem_entries.mp he
    exact slashStep_eq height hpos hperiods hmin.1 (hmisses e.1 e.2 hget)
      (hknown e.1 (by rw [hget]; rfl)) slashes
  rw [Reorder.foldlM_congr hstep, Reorder.foldlM_some, List.foldl_append_eq_append,
    List.nil_append, Option.map_some]
  congr 2
  rw [List.map_filterMap, filterMap_eq_flatMap_toList, List.flatMap_def]

/-- Twenty vote periods, one valid vote required: the operator at `2^63` misses and the one at
    twenty are punished, the one at nineteen is not. -/
theorem slash_window_punishes_two :
    let missCounters := (((∅ : SortedMap ValAddr UInt64).set "a" 20).set "b" 19).set "c"
      9223372036854775808
    ∃ punished : List (ValAddr × Validator),
      (punished.map Prod.fst).Nodup ∧
      (∀ a v, (a, v) ∈ punished ↔ Punished smallStaking smallParams missCounters a v) ∧
      slashAndResetAll smallStaking smallParams 99 missCounters =
        some ⟨punished.map (fun p => slashEvent smallParams 99 p.2), ∅⟩ := by
  intro missCounters
  have hcounters : ∀ e ∈ missCounters.entries, e.2.toNat ≤ 2 ^ 63 ∧
      (smallStaking.validators.get e.1).isSome := by decide +kernel
  refine slash_window_punishes smallStaking smallParams 99 missCounters (by decide) (by decide)
    (by decide) (by decide) ⟨by decide, by decide⟩ ?_ ?_
  · intro a misses h
    exact (hcounters (a, misses) (SortedMap.mem_entries.mpr h)).1
  · intro a h
    obtain ⟨misses, h⟩ := Option.isSome_iff_exists.mp h
    exact (hcounters (a, misses) (SortedMap.mem_entries.mpr h)).2

/-- Twenty vote periods and a minimum of zero: the operator with twenty-one misses is slashed,
    although it is neither within the window and below the minimum nor is the minimum positive. -/
theorem slashed_below_zero :
    let params := { smallParams with minValidPerWindow := Dec.zero }
    slashAndResetAll smallStaking params 99 ((∅ : SortedMap ValAddr UInt64).set "a" 21) =
        some ⟨[⟨"consA", 97, 1, params.slashFraction⟩], ∅⟩ ∧
      ¬ (21 ≤ periodsPerWindow params ∧ FallsShort params 21) ∧
      ¬ (periodsPerWindow params < 21 ∧ 0 < params.minValidPerWindow.i) := by
  decide +kernel

end TerraClassic.Oracle
