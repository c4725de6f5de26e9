import TerraClassic.Oracle.Ballot

/-! # Who sets the price

    The tally of a ballot is its weighted median: walking the sorted votes, the rate at which
    the power reaches `totalPower / 2`.  The division drops a half.  With an odd total the
    walk may stop one vote early, at a rate up to which only a minority has voted; then
    the majority, which voted for more, has no say.  From `2^63` on the total wraps to a
    negative number, and the walk stops at the first vote.
-/

namespace TerraClassic.Oracle

/-- The power of the votes with a rate between `lo` and `hi`. -/
def powerIn (pb : ExchangeRateBallot) (lo hi : Dec) : ℤ :=
  WeightedMedian.weightIn VoteForTally.exchangeRate VoteForTally.power pb lo hi

/-- The power of the votes with a rate up to `x`. -/
def powerUpTo (pb : ExchangeRateBallot) (x : Dec) : ℤ :=
  WeightedMedian.weightUpTo VoteForTally.exchangeRate VoteForTally.power pb x

/-- Votes with more than half of the power, all within an interval, have the median there. -/
def MajoritySetsPrice (pb : ExchangeRateBallot) : Prop :=
  ∀ lo hi, totalPower pb < 2 * powerIn pb lo hi →
    lo ≤ weightedMedian pb ∧ weightedMedian pb ≤ hi

/-- The power up to no vote falls short of half the total by one half. -/
def NeverHalfShort (pb : ExchangeRateBallot) : Prop :=
  ∀ v ∈ pb, 2 * powerUpTo pb v.exchangeRate + 1 ≠ totalPower pb

theorem majority_iff_of_lt {pb : ExchangeRateBallot} (hs : SortedByRate pb)
    (hpow : ∀ v ∈ pb, 0 ≤ v.power) (hlt : totalPower pb < 2 ^ 63) :
    MajoritySetsPrice pb ↔ NeverHalfShort pb := by
  by_cases hne : pb = []
  · -- an empty ballot has no majority and no votes
    subst hne
    constructor
    · intro _ v hv
      cases hv
    · intro _ lo hi hmore
      exact absurd hmore (lt_irrefl 0)
  · have hreaches := weightedMedian_reaches hpow hs hne hlt
    unfold ReachesHalf at hreaches
    rw [Int.tdiv_eq_ediv_of_nonneg (totalPower_nonneg hpow)] at hreaches
    exact hreaches.majority_iff hpow

/-- A majority of a sorted ballot sets the price if the total power is an int64 and the
    power up to no vote falls short of half of it by one half; below `2^63` it does so only
    then. -/
theorem majority_sets_price_iff {pb : ExchangeRateBallot} (hs : SortedByRate pb)
    (hpow : ∀ v ∈ pb, 0 ≤ v.power) :
    (totalPower pb < 2 ^ 63 ∧ NeverHalfShort pb → MajoritySetsPrice pb) ∧
    (totalPower pb < 2 ^ 63 → MajoritySetsPrice pb → NeverHalfShort pb) := by
  constructor
  · rintro ⟨hlt, hnever⟩
    exact (majority_iff_of_lt hs hpow hlt).mpr hnever
  · intro hlt hsets
    exact (majority_iff_of_lt hs hpow hlt).mp hsets

/-- A ballot on `uusd` with one vote for each rate and power. -/
def ballotOn (votes : List (ValAddr × ℤ × ℤ)) : ExchangeRateBallot :=
  votes.map (fun v => ⟨"uusd", Dec.ofInt v.2.1, v.1, v.2.2⟩)

theorem majority_sets_price_supermajority :
    MajoritySetsPrice (ballotOn [("a", 1, 1), ("b", 2, 1), ("c", 10, 100), ("d", 100000, 1)]) := by
  refine (majority_sets_price_iff ?_ ?_).1 ⟨?_, ?_⟩
  · unfold SortedByRate
    decide +kernel
  · decide +kernel
  · decide +kernel
  · unfold NeverHalfShort
    decide +kernel

/-- A third of the power sets the price: the walk stops at power 1 of 3. -/
theorem minority_sets_price :
    let pb := ballotOn [("a", 1, 1), ("b", 2, 2)]
    SortedByRate pb ∧ (∀ v ∈ pb, 0 ≤ v.power) ∧
      totalPower pb < 2 * powerIn pb (Dec.ofInt 2) (Dec.ofInt 2) ∧
      ¬ (Dec.ofInt 2 ≤ weightedMedian pb ∧ weightedMedian pb ≤ Dec.ofInt 2) := by
  unfold SortedByRate
  decide +kernel

-- all but one unit voted 2, but the total of `2^63` wraps and the walk stops at the first vote
example : weightedMedian (ballotOn [("a", 1, 1), ("b", 2, 2 ^ 63 - 1)]) = Dec.ofInt 1 := by
  decide +kernel

end TerraClassic.Oracle
