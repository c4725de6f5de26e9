import Mathlib.Algebra.BigOperators.Group.Finset.Basic
import TerraClassic.Treasury.Keeper

/-! # The windows of the indicators

    `sumIndicator` and `rollingAverageIndicator` run down from the current epoch
    while `i >= 0 && i > curEpoch-epochs`; the average divides by `curEpoch - i` as
    the loop leaves it.  `epochLoop` is that loop; the keeper's definitions, which
    list the visited epochs instead, agree with it (`sumIndicator_eq_loop`,
    `rollingAverageIndicator_eq_loop`).

    A window visits as many epochs as it says, except where the difference
    `curEpoch-epochs` overflows: the most negative windows, which should visit none,
    visit all epochs (`visitedCount_of_ge`).
-/

namespace TerraClassic.Treasury

open Dec (Fits)

/-! ### The loop of the source -/

/-- `for i := curEpoch; i >= 0 && i > bound; i--`: the sum, and `i` after the loop. -/
def epochLoop (indicator : ℤ → Option Dec) (bound i : ℤ) (sum : Dec) : Option (Dec × ℤ) :=
  if 0 ≤ i ∧ bound < i then do
    let val ← indicator i
    let sum ← sum.add val
    epochLoop indicator bound (i - 1) sum
  else some (sum, i)
termination_by (i + 1).toNat
decreasing_by omega

/-- `sumIndicator`, with the loop. -/
def sumIndicatorLoop (indicator : ℤ → Option Dec) (curEpoch epochs : ℤ) : Option Dec := do
  let (sum, _) ← epochLoop indicator (toInt64 (curEpoch - epochs)) curEpoch Dec.zero
  return sum

/-- `rollingAverageIndicator`, with the loop. -/
def rollingAverageIndicatorLoop (indicator : ℤ → Option Dec) (curEpoch epochs : ℤ) :
    Option Dec := do
  let (sum, i) ← epochLoop indicator (toInt64 (curEpoch - epochs)) curEpoch Dec.zero
  let computedEpochs := toInt64 (curEpoch - i)
  if computedEpochs = 0 then return sum else sum.quoInt64 computedEpochs

/-- The additions of the loop over some epochs. -/
def sumOver (indicator : ℤ → Option Dec) (epochs : List ℤ) (sum : Dec) : Option Dec :=
  epochs.foldlM (fun sum i => do
    let val ← indicator i
    sum.add val) sum

/-! ### The visited epochs -/

/-- The last `n` epochs, `e` first. -/
def lastEpochs (e : ℤ) (n : ℕ) : List ℤ := (List.range n).map (fun k : ℕ => e - k)

theorem lastEpochs_succ (e : ℤ) (n : ℕ) : lastEpochs e (n + 1) = e :: lastEpochs (e - 1) n := by
  unfold lastEpochs
  rw [List.range_succ_eq_map, List.map_cons, List.map_map]
  congr 1
  · simp
  · refine List.map_congr_left (fun k _ => ?_)
    simp only [Function.comp_apply, Nat.cast_succ]
    omega

theorem take_lastEpochs (e : ℤ) {m n : ℕ} (h : m ≤ n) :
    (lastEpochs e n).take m = lastEpochs e m := by
  unfold lastEpochs
  rw [← List.map_take, List.take_range, min_eq_left h]

/-- How many epochs a loop from `i` down to above `bound` visits. -/
def loopCount (bound i : ℤ) : ℕ := (i - max bound (-1)).toNat

/-- How many epochs a window visits. -/
def visitedCount (curEpoch epochs : ℤ) : ℕ := loopCount (toInt64 (curEpoch - epochs)) curEpoch

theorem epochLoop_eq (indicator : ℤ → Option Dec) (bound i : ℤ) (sum : Dec) :
    epochLoop indicator bound i sum =
      (sumOver indicator (lastEpochs i (loopCount bound i)) sum).map
        (fun sum => (sum, i - loopCount bound i)) := by
  obtain ⟨n, hn⟩ : ∃ n, loopCount bound i = n := ⟨_, rfl⟩
  rw [hn]
  unfold loopCount at hn
  -- on the rounds still to come
  induction n generalizing i sum with
  | zero =>
    rw [epochLoop, if_neg (by omega)]
    simp [lastEpochs, sumOver]
  | succ n ih =>
    rw [epochLoop, if_pos (by omega), lastEpochs_succ, sumOver, List.foldlM_cons]
    cases hval : indicator i with
    | none => rfl
    | some val =>
      cases hadd : sum.add val with
      | none => simp [hadd]
      | some sum' =>
        have hnext := ih (i - 1) sum' (by omega)
        rw [show i - 1 - (n : ℤ) = i - ((n + 1 : ℕ) : ℤ) by push_cast; ring] at hnext
        simp only [Option.bind_eq_bind, Option.bind_some, hadd]
        exact hnext

/-- The epochs from `n - 1` down to zero that are above `bound`. -/
theorem takeWhile_range (bound : ℤ) (n : ℕ) :
    ((List.range n).reverse.map (fun i : ℕ => (i : ℤ))).takeWhile (fun i => bound < i) =
      lastEpochs ((n : ℤ) - 1) (loopCount bound ((n : ℤ) - 1)) := by
  induction n with
  | zero =>
    have hcount : loopCount bound (((0 : ℕ) : ℤ) - 1) = 0 := by
      unfold loopCount
      omega
    rw [hcount]
    rfl
  | succ n ih =>
    rw [List.range_succ, List.reverse_append, List.reverse_singleton, List.singleton_append,
      List.map_cons]
    have hlast : ((n + 1 : ℕ) : ℤ) - 1 = n := by push_cast; ring
    rw [hlast]
    by_cases hbound : bound < (n : ℤ)
    · have hcount : loopCount bound n = loopCount bound ((n : ℤ) - 1) + 1 := by
        unfold loopCount
        omega
      rw [List.takeWhile_cons_of_pos (by simpa using hbound), ih, hcount, lastEpochs_succ]
    · have hcount : loopCount bound n = 0 := by
        unfold loopCount
        omega
      rw [List.takeWhile_cons_of_neg (by simpa using hbound), hcount]
      rfl

section
variable {curEpoch epochs : ℤ}

theorem visitedEpochs_eq (h : 0 ≤ curEpoch) :
    visitedEpochs curEpoch epochs = lastEpochs curEpoch (visitedCount curEpoch epochs) := by
  have hlast : ((curEpoch + 1).toNat : ℤ) - 1 = curEpoch := by omega
  have hrange := takeWhile_range (toInt64 (curEpoch - epochs)) (curEpoch + 1).toNat
  rw [hlast] at hrange
  unfold visitedCount
  rw [← hrange]
  simp [visitedEpochs, List.map_eq_flatMap]

theorem length_visitedEpochs (h : 0 ≤ curEpoch) :
    (visitedEpochs curEpoch epochs).length = visitedCount curEpoch epochs := by
  rw [visitedEpochs_eq h]
  simp [lastEpochs]

theorem visitedCount_le (h : 0 ≤ curEpoch) (epochs : ℤ) :
    (visitedCount curEpoch epochs : ℤ) ≤ curEpoch + 1 := by
  unfold visitedCount loopCount
  omega

/-- A window visits as many epochs as it says and as there are. -/
theorem visitedCount_of_lt (h : 0 ≤ curEpoch) (hepochs : epochs < 2 ^ 63)
    (hlt : curEpoch - epochs < 2 ^ 63) :
    visitedCount curEpoch epochs = (min (max epochs 0) (curEpoch + 1)).toNat := by
  unfold visitedCount loopCount
  rw [toInt64_of_lt (by omega) hlt]
  omega

/-- Where the difference overflows, the bound is negative. -/
theorem visitedCount_of_ge (hcur : curEpoch < 2 ^ 63) (hepochs : -2 ^ 63 ≤ epochs)
    (hge : 2 ^ 63 ≤ curEpoch - epochs) :
    visitedCount curEpoch epochs = (curEpoch + 1).toNat := by
  unfold visitedCount loopCount
  rw [toInt64_of_ge hge (by omega)]
  omega

end

/-! ### The keeper's definitions run the loop -/

theorem sumIndicator_eq_loop (indicator : ℤ → Option Dec) {curEpoch epochs : ℤ}
    (h : 0 ≤ curEpoch) :
    sumIndicator indicator curEpoch epochs = sumIndicatorLoop indicator curEpoch epochs := by
  show sumOver indicator (visitedEpochs curEpoch epochs) Dec.zero = _
  unfold sumIndicatorLoop
  rw [visitedEpochs_eq h, epochLoop_eq]
  unfold visitedCount
  cases sumOver indicator _ Dec.zero with
  | none => rfl
  | some sum => rfl

theorem rollingAverageIndicator_eq_loop (indicator : ℤ → Option Dec) {curEpoch epochs : ℤ}
    (h : 0 ≤ curEpoch) (hlt : curEpoch + 1 < 2 ^ 63) :
    rollingAverageIndicator indicator curEpoch epochs =
      rollingAverageIndicatorLoop indicator curEpoch epochs := by
  have hcount := visitedCount_le h epochs
  -- the loop ends at `curEpoch - n`
  have hcomputed : toInt64 (curEpoch - (curEpoch - visitedCount curEpoch epochs)) =
      visitedCount curEpoch epochs := by
    rw [sub_sub_cancel]
    exact toInt64_of_lt (by omega) (by omega)
  unfold rollingAverageIndicator rollingAverageIndicatorLoop
  rw [length_visitedEpochs h, epochLoop_eq]
  show sumOver indicator (visitedEpochs curEpoch epochs) Dec.zero >>= _ = _
  rw [visitedEpochs_eq h]
  unfold visitedCount at hcomputed ⊢
  cases sumOver indicator _ Dec.zero with
  | none => rfl
  | some sum =>
    simp only [Option.map_some, Option.bind_eq_bind, Option.bind_some, hcomputed]

/-! ### The sums -/

/-- The exact sum over the last `n` epochs. -/
def windowSum (value : ℤ → Dec) (e : ℤ) (n : ℕ) : ℤ := ∑ k ∈ Finset.range n, (value (e - k)).i

/-- The truncated average over the last `n` epochs; that of no epochs is zero. -/
def windowAverage (value : ℤ → Dec) (e : ℤ) (n : ℕ) : ℤ :=
  if n = 0 then 0 else (windowSum value e n).tdiv n

/-- The number of epochs that a window stands for. -/
def windowSize (curEpoch epochs : ℤ) : ℕ := (min (max epochs 0) (curEpoch + 1)).toNat

section
variable {curEpoch : ℤ}

theorem sum_lastEpochs (value : ℤ → Dec) (e : ℤ) (n : ℕ) :
    ((lastEpochs e n).map (fun i => (value i).i)).sum = windowSum value e n := by
  unfold lastEpochs windowSum
  rw [List.map_map]
  rfl

theorem returns_sumOver (value : ℤ → Dec) (e : ℤ) (n : ℕ) :
    Returns (sumOver (fun i => some (value i)) (lastEpochs e n) Dec.zero)
      (∀ m ≤ n, Fits (windowSum value e m)) ⟨windowSum value e n⟩ := by
  have hsum : Returns (sumOver (fun i => some (value i)) (lastEpochs e n) ⟨0⟩)
      (∀ m ≤ (lastEpochs e n).length,
        Fits (0 + (((lastEpochs e n).take m).map (fun i => (value i).i)).sum))
      ⟨0 + ((lastEpochs e n).map (fun i => (value i).i)).sum⟩ :=
    Returns.foldlM_partial_sums (fun i z => Dec.returns_add ⟨z⟩ (value i)) _ Dec.fits_zero
  rw [sum_lastEpochs, zero_add] at hsum
  refine hsum.congr ?_
  have hlength : (lastEpochs e n).length = n := by simp [lastEpochs]
  rw [hlength]
  refine forall₂_congr (fun m hm => ?_)
  rw [take_lastEpochs e hm, sum_lastEpochs, zero_add]

theorem returns_sumIndicatorLoop (value : ℤ → Dec) (curEpoch epochs : ℤ) :
    Returns (sumIndicatorLoop (fun i => some (value i)) curEpoch epochs)
      (∀ m ≤ visitedCount curEpoch epochs, Fits (windowSum value curEpoch m))
      ⟨windowSum value curEpoch (visitedCount curEpoch epochs)⟩ := by
  unfold sumIndicatorLoop
  rw [epochLoop_eq, Option.map_eq_bind, Option.bind_eq_bind, Option.bind_assoc]
  exact (returns_sumOver value curEpoch _).bind_some rfl

theorem returns_rollingAverageIndicatorLoop (value : ℤ → Dec) (h : 0 ≤ curEpoch)
    (hlt : curEpoch + 1 < 2 ^ 63) (epochs : ℤ) :
    Returns (rollingAverageIndicatorLoop (fun i => some (value i)) curEpoch epochs)
      (∀ m ≤ visitedCount curEpoch epochs, Fits (windowSum value curEpoch m))
      ⟨windowAverage value curEpoch (visitedCount curEpoch epochs)⟩ := by
  rw [← rollingAverageIndicator_eq_loop _ h hlt]
  unfold rollingAverageIndicator
  rw [length_visitedEpochs h, sumIndicator_eq_loop _ h]
  refine (returns_sumIndicatorLoop value curEpoch epochs).bind_some ?_
  unfold windowAverage
  by_cases hzero : visitedCount curEpoch epochs = 0
  · rw [hzero]
    rfl
  · simp only [Int.natCast_eq_zero, if_neg hzero, Dec.quoInt64]

end

/-! ### Exact windows -/

/-- Both functions work on exactly the epochs of their window where `curEpoch-epochs` is
    an `int64` and the partial sums fit.  Where it overflows, all epochs are visited, and the
    result is right only if they sum to zero. -/
theorem windows_exact_iff (value : ℤ → Dec) (height : BlockHeight) (epochs : Int64) :
    (sumIndicatorLoop (fun i => some (value i)) (getEpoch height) epochs.toInt =
        some ⟨windowSum value (getEpoch height) (windowSize (getEpoch height) epochs.toInt)⟩ ∧
      rollingAverageIndicatorLoop (fun i => some (value i)) (getEpoch height) epochs.toInt =
        some ⟨windowAverage value (getEpoch height)
          (windowSize (getEpoch height) epochs.toInt)⟩) ↔
    (getEpoch height - epochs.toInt < 2 ^ 63 ∧
      ∀ m ≤ windowSize (getEpoch height) epochs.toInt, Fits (windowSum value (getEpoch height) m)) ∨
    (2 ^ 63 ≤ getEpoch height - epochs.toInt ∧
      (∀ m ≤ (getEpoch height + 1).toNat, Fits (windowSum value (getEpoch height) m)) ∧
      windowSum value (getEpoch height) (getEpoch height + 1).toNat = 0) := by
  have hnonneg := getEpoch_nonneg height
  have hlt := getEpoch_succ_lt height
  have hsum := returns_sumIndicatorLoop value (getEpoch height) epochs.toInt
  have haverage := returns_rollingAverageIndicatorLoop value hnonneg hlt epochs.toInt
  rcases lt_or_ge (getEpoch height - epochs.toInt) (2 ^ 63) with hrange | hwraps
  · have hcount : visitedCount (getEpoch height) epochs.toInt =
        windowSize (getEpoch height) epochs.toInt :=
      visitedCount_of_lt hnonneg epochs.toInt_lt hrange
    rw [hcount] at hsum haverage
    rw [or_iff_left (fun h => absurd h.1 (not_le.mpr hrange)), and_iff_right hrange]
    constructor
    · intro h
      exact hsum.isSome_iff.mp (by rw [h.1]; rfl)
    · intro hfits
      exact ⟨hsum.1 hfits, haverage.1 hfits⟩
  · have hcount : visitedCount (getEpoch height) epochs.toInt = (getEpoch height + 1).toNat :=
      visitedCount_of_ge (by omega) epochs.le_toInt hwraps
    have hsize : windowSize (getEpoch height) epochs.toInt = 0 := by
      unfold windowSize
      omega
    have hempty : windowSum value (getEpoch height) 0 = 0 := rfl
    rw [hcount] at hsum haverage
    rw [hsize, hempty, or_iff_right (fun h => absurd h.1 (not_lt.mpr hwraps)),
      and_iff_right hwraps]
    constructor
    · intro h
      have hfits := hsum.isSome_iff.mp (by rw [h.1]; rfl)
      have hvalue := (hsum.1 hfits).symm.trans h.1
      exact ⟨hfits, congrArg Dec.i (Option.some.inj hvalue)⟩
    · intro h
      obtain ⟨hfits, hzero⟩ := h
      have hall := haverage.1 hfits
      unfold windowAverage at hall ⊢
      rw [hzero, Int.zero_tdiv, ite_self] at hall
      refine ⟨?_, hall⟩
      rw [hsum.1 hfits, hzero]

/-- A short window of `2^63` is the `int64` with the most negative value.  At the first epoch
    it stands for no epochs, but the sum and the average have the indicator of that epoch. -/
theorem windows_wrap :
    windowInt64 9223372036854775808 = Int64.minValue.toInt ∧
      windowSize (getEpoch 0) Int64.minValue.toInt = 0 ∧
      sumIndicatorLoop (fun _ => some Dec.one) (getEpoch 0) Int64.minValue.toInt =
        some Dec.one ∧
      rollingAverageIndicatorLoop (fun _ => some Dec.one) (getEpoch 0) Int64.minValue.toInt =
        some Dec.one ∧
      Dec.one ≠ ⟨windowSum (fun _ => Dec.one) (getEpoch 0) 0⟩ := by
  rw [← sumIndicator_eq_loop _ (getEpoch_nonneg 0),
    ← rollingAverageIndicator_eq_loop _ (getEpoch_nonneg 0) (getEpoch_succ_lt 0)]
  refine ⟨by decide +kernel, by decide +kernel, by decide +kernel, by decide +kernel,
    by decide⟩

end TerraClassic.Treasury
