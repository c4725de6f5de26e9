import TerraClassic.Lib.Apportion
import TerraClassic.Lib.Run
import TerraClassic.Oracle.RewardSafety

/-! # The rewards stay within the pool

    `RewardBallotWinners` rounds half to even when it multiplies a pool by a
    winner's share, so single payouts can be too high.  As the shares are
    truncated and the payouts too, their sum is still within the pool
    (`Apportion.sum_payout_le`), as long as the divisor really is the sum of
    the weights.  The code adds the weights up as `int64`, so from `2^63` on
    the divisor is another number.
-/

namespace TerraClassic.Oracle

/-! ### What is allocated is what is sent -/

/-- The coins of a denom given to all validators together. -/
def Reward.allocatedAmount (reward : Reward) (d : Denom) : ℤ :=
  (reward.allocated.entries.map (fun e => e.2.amountOf d)).sum

/-- The allocations of a denom add up to the coins to be sent. -/
def Reward.Balanced (reward : Reward) : Prop :=
  ∀ d, reward.allocatedAmount d = reward.sent.amountOf d

theorem Reward.balanced_none : Reward.none.Balanced := fun _ => rfl

theorem doleOut_balanced {staking : StakingKeeper} {rewards : DecCoins} {powerSum : ℤ}
    {r r' : Reward} {e : ValAddr × Claim} (hr : r.Balanced)
    (h : doleOut staking rewards powerSum r e = some r') : r'.Balanced := by
  unfold doleOut at h
  obtain ⟨coins, _, h⟩ := Option.bind_eq_some_iff.mp h
  split at h
  · split at h
    · rw [← Option.some.inj h]
      exact hr
    · intro d
      have hset := r.allocated.sum_set (fun c : Coins => c.amountOf d) e.2.recipient
        ((r.allocated.getD e.2.recipient ∅).add coins)
      have hold : ((r.allocated.get e.2.recipient).map (fun c : Coins => c.amountOf d)).getD 0 =
          (r.allocated.getD e.2.recipient ∅).amountOf d := by
        unfold SortedMap.getD
        cases r.allocated.get e.2.recipient with
        | none => rfl
        | some c => rfl
      have hbefore := hr d
      rw [hold, Coins.amountOf_add] at hset
      rw [← Option.some.inj h]
      unfold Reward.allocatedAmount at hbefore ⊢
      simp only [Coins.amountOf_add]
      omega
  · cases h

theorem foldlM_doleOut_balanced {staking : StakingKeeper} {rewards : DecCoins} {powerSum : ℤ}
    {l : List (ValAddr × Claim)} {r r' : Reward} (hr : r.Balanced)
    (h : l.foldlM (doleOut staking rewards powerSum) r = some r') : r'.Balanced :=
  Run.run_invariant (fun _ _ _ hstep hs => doleOut_balanced hs hstep) h hr

/-- A reward step that returns sent what it allocated, and the pool held it. -/
theorem rewardBallotWinners_balanced {sched : Schedule} {k : Keepers} {votePeriod window : ℤ}
    {voteTargets : SortedMap Denom Dec} {winners : SortedMap ValAddr Claim} {reward : Reward}
    (h : rewardBallotWinners sched k votePeriod window voteTargets winners = some reward) :
    reward.Balanced ∧ ∀ d, reward.sent.amountOf d ≤ k.bank.balance d := by
  simp only [rewardBallotWinners] at h
  split at h
  · rw [← Option.some.inj h]
    exact ⟨Reward.balanced_none, fun d => Int.natCast_nonneg _⟩
  · obtain ⟨ratio, _, h⟩ := Option.bind_eq_some_iff.mp h
    obtain ⟨rewards, _, h⟩ := Option.bind_eq_some_iff.mp h
    obtain ⟨r, hpaid, h⟩ := Option.bind_eq_some_iff.mp h
    split at h
    · next hcovers =>
      rw [← Option.some.inj h]
      exact ⟨foldlM_doleOut_balanced Reward.balanced_none hpaid, (covers_iff _ _).mp hcovers⟩
    · cases h

/-! ### The inputs -/

/-- The sum of the winners' weights, without the `int64` wrap. -/
def totalWeight (winners : SortedMap ValAddr Claim) : ℤ :=
  (winners.entries.map (fun e => e.2.weight)).sum

/-- The pools can be read: their denoms are valid, and the period's share of
    each fits in a decimal. -/
def PoolsReadable (bank : BankKeeper) (ratio : Dec) (voteTargets : SortedMap Denom Dec) : Prop :=
  (∀ d ∈ voteTargets.keys, bank.validDenom d = true) ∧
    ∀ d ∈ microLunaDenom :: voteTargets.keys, Dec.Fits (poolShare bank ratio d)

/-- The reward step returns, allocates what it sends, and takes no more of a
    denom than the oracle account has. -/
def RewardsWithinPool (sched : Schedule) (k : Keepers) (votePeriod window : ℤ)
    (voteTargets : SortedMap Denom Dec) (winners : SortedMap ValAddr Claim) : Prop :=
  ∃ reward, rewardBallotWinners sched k votePeriod window voteTargets winners = some reward ∧
    ∀ d, reward.allocatedAmount d = reward.sent.amountOf d ∧
      reward.sent.amountOf d ≤ k.bank.balance d

theorem rewardsWithinPool_iff_isSome {sched : Schedule} {k : Keepers} {votePeriod window : ℤ}
    {voteTargets : SortedMap Denom Dec} {winners : SortedMap ValAddr Claim} :
    RewardsWithinPool sched k votePeriod window voteTargets winners ↔
      (rewardBallotWinners sched k votePeriod window voteTargets winners).isSome := by
  constructor
  · rintro ⟨reward, h, _⟩
    rw [h]
    rfl
  · intro h
    obtain ⟨reward, hreward⟩ := Option.isSome_iff_exists.mp h
    obtain ⟨hbalanced, hpool⟩ := rewardBallotWinners_balanced hreward
    exact ⟨reward, hreward, fun d => ⟨hbalanced d, hpool d⟩⟩

theorem distributionRatio_bounds {votePeriod window : ℤ} (hpos : 0 < votePeriod)
    (hle : votePeriod ≤ window) :
    0 ≤ (distributionRatio votePeriod window).i ∧
      (distributionRatio votePeriod window).i ≤ decOne := by
  have hD := Dec.decOne_posInt
  have hwindow : 0 < window := by omega
  have hnum : 0 ≤ votePeriod * decOne := by positivity
  unfold distributionRatio
  rw [Int.tdiv_eq_ediv_of_nonneg hnum]
  refine ⟨Int.ediv_nonneg hnum hwindow.le, ?_⟩
  apply Int.ediv_le_of_le_mul hwindow
  nlinarith

/-- Without Luna among the targets each pool counts once. -/
theorem periodReward_eq (bank : BankKeeper) (ratio : Dec) {voteTargets : SortedMap Denom Dec}
    (hluna : microLunaDenom ∉ voteTargets.keys) (d : Denom) :
    periodReward bank ratio voteTargets d =
      if d ∈ microLunaDenom :: voteTargets.keys then poolShare bank ratio d else 0 := by
  have hnodup : (microLunaDenom :: voteTargets.keys).Nodup :=
    List.nodup_cons.mpr ⟨hluna, voteTargets.keys_nodup⟩
  unfold periodReward
  by_cases hd : d ∈ microLunaDenom :: voteTargets.keys
  · rw [if_pos hd, List.count_eq_one_of_mem hnodup hd]
    simp
  · rw [if_neg hd, List.count_eq_zero_of_not_mem hd]
    simp

/-! ### Enough: the divisor is the sum of the weights -/

section shares
variable {powerSum : ℤ}

theorem tdiv_eq_share {w : ℤ} (hw : 0 ≤ w) :
    (w * decOne).tdiv powerSum = Apportion.share decOne powerSum w :=
  Int.tdiv_eq_ediv_of_nonneg (mul_nonneg hw Dec.decOne_posInt.le)

variable (hpos : 0 < powerSum)
include hpos

theorem share_nonneg {w : ℤ} (hw : 0 ≤ w) : 0 ≤ Apportion.share decOne powerSum w :=
  Int.ediv_nonneg (mul_nonneg hw Dec.decOne_posInt.le) hpos.le

theorem share_le_one {w : ℤ} (hle : w ≤ powerSum) :
    Apportion.share decOne powerSum w ≤ decOne := by
  have hD := Dec.decOne_posInt
  apply Int.ediv_le_of_le_mul hpos
  nlinarith

/-- A payout is between zero and the whole reward. -/
theorem weightReward_bounds {reward w : ℤ} (hreward : 0 ≤ reward) (hw : 0 ≤ w)
    (hle : w ≤ powerSum) :
    0 ≤ weightReward reward powerSum w ∧ weightReward reward powerSum w ≤ reward := by
  unfold weightReward Dec.chopPrecisionAndRound
  rw [tdiv_eq_share hw]
  have hshare := share_nonneg hpos hw
  have hone := share_le_one hpos hle
  refine ⟨Rounding.roundHalfEven_nonneg _ (mul_nonneg hreward hshare), ?_⟩
  apply Rounding.roundHalfEven_le_of_le_mul _ Dec.decOne_pos
  nlinarith

/-- The truncated payouts of all winners together are within the pool. -/
theorem sum_weightReward_le {reward balance : ℤ} (hreward : 0 ≤ reward)
    (hbalance : reward ≤ balance * decOne) {weights : List ℤ} (hweights : ∀ w ∈ weights, 0 ≤ w)
    (hsum : weights.sum = powerSum) (hlength : weights.length < 10 ^ 18) :
    (weights.map (fun w => (weightReward reward powerSum w).tdiv decOne)).sum ≤ balance := by
  -- share, round and truncate: the form the apportionment lemma is stated for
  have hpayout : weights.map (fun w => (weightReward reward powerSum w).tdiv decOne) =
      (weights.map (Apportion.share decOne powerSum)).map
        (fun q => Dec.chopPrecisionAndRound (reward * q) / decOne) := by
    rw [List.map_map]
    apply List.map_congr_left
    intro w hw
    have hnonneg : 0 ≤ Dec.chopPrecisionAndRound (reward * Apportion.share decOne powerSum w) :=
      Rounding.roundHalfEven_nonneg _ (mul_nonneg hreward (share_nonneg hpos (hweights w hw)))
    show (Dec.chopPrecisionAndRound (reward * (w * decOne).tdiv powerSum)).tdiv decOne = _
    rw [tdiv_eq_share (hweights w hw), Int.tdiv_eq_ediv_of_nonneg hnonneg]
    rfl
  rw [hpayout]
  apply Apportion.sum_payout_le Dec.decOne_posInt Dec.two_mul_chop_le hreward hbalance
  · exact Apportion.sum_share_le hpos hsum
  · rw [List.length_map]
    unfold decOne
    push_cast
    omega

end shares

/-- A step whose weights add up without a wrap gets through. -/
theorem rewardSafe_of_sum_pos {bank : BankKeeper} {votePeriod window : ℤ}
    (hvote : 0 < votePeriod) (hle : votePeriod ≤ window) {voteTargets : SortedMap Denom Dec}
    (hluna : microLunaDenom ∉ voteTargets.keys)
    (hread : PoolsReadable bank (distributionRatio votePeriod window) voteTargets)
    {weights : List ℤ} (hweights : ∀ w ∈ weights, 0 ≤ w) (hlength : weights.length < 10 ^ 18)
    (hpos : 0 < weights.sum) :
    RewardSafe bank (distributionRatio votePeriod window) voteTargets weights.sum weights := by
  obtain ⟨hratio, hratioOne⟩ := distributionRatio_bounds hvote hle
  have hD := Dec.decOne_posInt
  have hshare : ∀ d, 0 ≤ poolShare bank (distributionRatio votePeriod window) d := fun d =>
    mul_nonneg (Int.natCast_nonneg _) hratio
  have hreward : ∀ d, 0 ≤ periodReward bank (distributionRatio votePeriod window) voteTargets d ∧
      Dec.Fits (periodReward bank (distributionRatio votePeriod window) voteTargets d) ∧
      periodReward bank (distributionRatio votePeriod window) voteTargets d ≤
        bank.balance d * decOne := by
    intro d
    rw [periodReward_eq bank _ hluna d]
    split
    · next hd =>
      exact ⟨hshare d, hread.2 d hd,
        mul_le_mul_of_nonneg_left hratioOne (Int.natCast_nonneg _)⟩
    · exact ⟨le_rfl, Dec.fits_zero, by positivity⟩
  refine ⟨hread.1, fun d _ => ⟨hshare d, (hreward d).2.1⟩, ?_, ?_⟩
  · intro w hw d
    obtain ⟨hnonneg, hpayout⟩ := weightReward_bounds hpos (hreward d).1 (hweights w hw)
      (List.single_le_sum hweights w hw)
    exact ⟨(hreward d).2.1.of_le hnonneg hpayout, hnonneg⟩
  · intro d
    exact sum_weightReward_le hpos (hreward d).1 (hreward d).2.2 hweights rfl hlength

/-! ### Needed: a wrapped divisor overspends some pool -/

/-- A pool of `10^18` units of Luna and nothing else, read in full. -/
def lunaBank (bank : BankKeeper) : BankKeeper :=
  { bank with
    balance := fun d => if d = microLunaDenom then decOne else 0
    balance_lt := fun d => by
      show (if d = microLunaDenom then decOne else 0) < 2 ^ 256
      split
      · unfold decOne; norm_num
      · norm_num }

theorem lunaBank_poolShare (bank : BankKeeper) :
    poolShare (lunaBank bank) (distributionRatio 1 1) microLunaDenom = decOne * decOne := by
  simp [poolShare, lunaBank, distributionRatio]

theorem lunaBank_readable (bank : BankKeeper) :
    PoolsReadable (lunaBank bank) (distributionRatio 1 1) ∅ := by
  refine ⟨fun d hd => absurd hd List.not_mem_nil, ?_⟩
  intro d hd
  obtain rfl := List.mem_singleton.mp hd
  rw [lunaBank_poolShare]
  apply (Dec.fits_iff_of_nonneg (by positivity)).mpr
  calc (decOne : ℤ) * decOne < 2 ^ 128 := by unfold decOne; norm_num
    _ ≤ 2 ^ maxDecBitLen := pow_le_pow_right₀ (by norm_num) (by unfold maxDecBitLen; norm_num)

theorem lunaBank_periodReward (bank : BankKeeper) :
    periodReward (lunaBank bank) (distributionRatio 1 1) ∅ microLunaDenom = decOne * decOne := by
  have hluna : microLunaDenom ∉ (∅ : SortedMap Denom Dec).keys := List.not_mem_nil
  rw [periodReward_eq _ _ hluna, if_pos List.mem_cons_self, lunaBank_poolShare]

/-- From this pool a weight gets its share, to the unit. -/
theorem lunaBank_weightReward (powerSum w : ℤ) :
    weightReward (decOne * decOne) powerSum w = decOne * (w * decOne).tdiv powerSum := by
  unfold weightReward
  rw [mul_assoc, Dec.chop_mul]

/-- With too small a divisor the shares are more than the pool. -/
theorem sum_share_gt {powerSum : ℤ} (hpos : 0 < powerSum) (hlt : powerSum < 2 ^ 63)
    {weights : List ℤ} (hsum : powerSum + 2 ^ 64 ≤ weights.sum)
    (hlength : weights.length < 10 ^ 18) :
    (decOne : ℤ) < (weights.map (Apportion.share decOne powerSum)).sum := by
  -- each share is short of the exact one by less than a unit
  have hshort : weights.sum * decOne ≤
      powerSum * (weights.map (Apportion.share decOne powerSum)).sum + weights.length * powerSum :=
    Apportion.le_mul_sum_share hpos weights
  have hlen : (weights.length : ℤ) ≤ decOne := by unfold decOne; push_cast; omega
  have hD := Dec.decOne_posInt
  by_contra hnot
  have hle := mul_le_mul_of_nonneg_left (not_lt.mp hnot) hpos.le
  have hround := mul_le_mul_of_nonneg_right hlen hpos.le
  have hscaled := mul_le_mul_of_nonneg_right hsum hD.le
  nlinarith

/-- Fewer than `10^18` weights that add up to `2^63` have one above nine. -/
theorem exists_weight_ge {weights : List ℤ} (hsum : 2 ^ 63 ≤ weights.sum)
    (hlength : weights.length < 10 ^ 18) : ∃ w ∈ weights, 10 ≤ w := by
  by_contra hnone
  have hsmall : ∀ w ∈ weights, w ≤ 9 := by
    intro w hw
    by_contra hbig
    exact hnone ⟨w, hw, by omega⟩
  have hbound : weights.sum ≤ weights.length * 9 := by
    simpa using List.sum_le_card_nsmul weights 9 hsmall
  omega

/-- A negative divisor turns such a weight's payout negative. -/
theorem share_neg {powerSum : ℤ} (hneg : powerSum < 0) (hge : -2 ^ 63 ≤ powerSum) {w : ℤ}
    (hw : 10 ≤ w) : (w * decOne).tdiv powerSum < 0 := by
  have hquotient : 1 ≤ (w * (decOne : ℤ)) / -powerSum := by
    apply (Int.le_ediv_iff_mul_le (by omega)).mpr
    unfold decOne
    push_cast
    omega
  have hnonneg : 0 ≤ w * (decOne : ℤ) := mul_nonneg (by omega) Dec.decOne_posInt.le
  have hflip : (w * (decOne : ℤ)).tdiv powerSum = -((w * (decOne : ℤ)) / -powerSum) := by
    rw [← Int.tdiv_eq_ediv_of_nonneg hnonneg, Int.tdiv_neg, neg_neg]
  omega

/-- The wrapped sum of weights that do not fit. -/
theorem toInt64_add_le_of_ge {x : ℤ} (h : 2 ^ 63 ≤ x) : toInt64 x + 2 ^ 64 ≤ x := by
  have hlt := toInt64_lt x
  obtain ⟨q, hq⟩ : ∃ q, x - toInt64 x = 2 ^ 64 * q := by
    unfold toInt64
    exact Int.dvd_self_sub_bmod
  omega

theorem lunaBank_not_rewardSafe (bank : BankKeeper) {weights : List ℤ}
    (hweights : ∀ w ∈ weights, 0 ≤ w) (hsum : 2 ^ 63 ≤ weights.sum)
    (hlength : weights.length < 10 ^ 18) (hne : toInt64 weights.sum ≠ 0) :
    ¬ RewardSafe (lunaBank bank) (distributionRatio 1 1) ∅ (toInt64 weights.sum) weights := by
  intro hsafe
  rcases lt_or_gt_of_ne hne with hneg | hpos
  -- a negative divisor: some winner's payout is below zero
  · obtain ⟨w, hw, hten⟩ := exists_weight_ge hsum hlength
    have hpayout := (hsafe.payouts w hw microLunaDenom).2
    rw [lunaBank_periodReward, lunaBank_weightReward] at hpayout
    have hge : -2 ^ 63 ≤ toInt64 weights.sum := by
      unfold toInt64
      have := @Int.le_bmod weights.sum (2 ^ 64) (by norm_num)
      norm_num at this ⊢
      omega
    have hshare := mul_neg_of_pos_of_neg Dec.decOne_posInt (share_neg hneg hge hten)
    omega
  -- a positive one, smaller than the sum by at least `2^64`: more is paid than there is
  · have hcovered := hsafe.covered microLunaDenom
    rw [lunaBank_periodReward] at hcovered
    have hshares : weights.map (fun w =>
        (weightReward (decOne * decOne) (toInt64 weights.sum) w).tdiv decOne) =
        weights.map (Apportion.share decOne (toInt64 weights.sum)) := by
      apply List.map_congr_left
      intro w hw
      rw [lunaBank_weightReward, Int.mul_tdiv_cancel_left _ Dec.decOne_posInt.ne',
        tdiv_eq_share (hweights w hw)]
    rw [hshares] at hcovered
    have hbalance : (lunaBank bank).balance microLunaDenom = decOne := by simp [lunaBank]
    rw [hbalance] at hcovered
    have hgt := sum_share_gt hpos (toInt64_lt _) (toInt64_add_le_of_ge hsum) hlength
    omega

/-! ### For which winners the rewards stay within every pool -/

/-- The reward step in terms of the winners' weights. -/
theorem rewardsWithinPool_iff (sched : Schedule) (k : Keepers) (bank : BankKeeper)
    {votePeriod window : ℤ} (hvote : 0 < votePeriod) (hle : votePeriod ≤ window)
    (voteTargets : SortedMap Denom Dec) {winners : SortedMap ValAddr Claim}
    (hknown : ∀ e ∈ winners.entries, (k.staking.validators.get e.2.recipient).isSome) :
    RewardsWithinPool sched { k with bank := bank } votePeriod window voteTargets winners ↔
      toInt64 (totalWeight winners) = 0 ∨
        RewardSafe bank (distributionRatio votePeriod window) voteTargets
          (toInt64 (totalWeight winners)) (winners.entries.map (fun e => e.2.weight)) := by
  rw [rewardsWithinPool_iff_isSome,
    rewardBallotWinners_isSome_iff sched { k with bank := bank } (by omega) voteTargets hknown,
    ballotPowerSum_eq]
  rfl

theorem toInt64_eq_zero_iff (x : ℤ) : toInt64 x = 0 ↔ 2 ^ 64 ∣ x := by
  unfold toInt64
  exact Int.dvd_iff_bmod_eq_zero.symm

/-- The rewards of these winners stay within every readable pool exactly when
    their weights add up below `2^63`, or to a multiple of `2^64`, where the code
    takes the ballot to be empty.  A pool that cannot be read stops every other
    reward step. -/
theorem rewards_within_pool_iff (sched : Schedule) (k : Keepers)
    (winners : SortedMap ValAddr Claim)
    (hweights : ∀ e ∈ winners.entries, 0 ≤ e.2.weight) (hsize : winners.size < 10 ^ 18)
    (hknown : ∀ e ∈ winners.entries, (k.staking.validators.get e.2.recipient).isSome) :
    ((∀ (bank : BankKeeper) (votePeriod window : ℤ) (voteTargets : SortedMap Denom Dec),
        0 < votePeriod → votePeriod ≤ window → microLunaDenom ∉ voteTargets.keys →
        PoolsReadable bank (distributionRatio votePeriod window) voteTargets →
        RewardsWithinPool sched { k with bank := bank } votePeriod window voteTargets winners) ↔
      totalWeight winners < 2 ^ 63 ∨ 2 ^ 64 ∣ totalWeight winners) ∧
    ∀ (bank : BankKeeper) (votePeriod window : ℤ) (voteTargets : SortedMap Denom Dec),
      0 < votePeriod → votePeriod ≤ window → microLunaDenom ∉ voteTargets.keys →
      ¬ PoolsReadable bank (distributionRatio votePeriod window) voteTargets →
      (RewardsWithinPool sched { k with bank := bank } votePeriod window voteTargets winners ↔
        2 ^ 64 ∣ totalWeight winners) := by
  have hnonneg : ∀ w ∈ winners.entries.map (fun e => e.2.weight), 0 ≤ w :=
    List.forall_mem_map.mpr hweights
  have hlength : (winners.entries.map (fun e => e.2.weight)).length < 10 ^ 18 := by
    rw [List.length_map]
    exact hsize
  refine ⟨⟨?_, ?_⟩, ?_⟩
  · intro hall
    by_contra hnot
    obtain ⟨hge, hdvd⟩ := not_or.mp hnot
    -- the one pool that tells: `10^18` units, all paid out in one period
    have hluna := hall (lunaBank k.bank) 1 1 ∅ one_pos le_rfl List.not_mem_nil
      (lunaBank_readable k.bank)
    rw [rewardsWithinPool_iff sched k _ one_pos le_rfl ∅ hknown] at hluna
    rcases hluna with hzero | hsafe
    · exact hdvd ((toInt64_eq_zero_iff _).mp hzero)
    · exact lunaBank_not_rewardSafe k.bank hnonneg (not_lt.mp hge) hlength
        (fun hzero => hdvd ((toInt64_eq_zero_iff _).mp hzero)) hsafe
  · intro hsum bank votePeriod window voteTargets hvote hle hluna hread
    rw [rewardsWithinPool_iff sched k _ hvote hle voteTargets hknown]
    rcases hsum with hlt | hdvd
    · have htotal : 0 ≤ totalWeight winners := List.sum_nonneg hnonneg
      rw [toInt64_of_lt (by omega) hlt]
      rcases htotal.eq_or_lt with hzero | hpos
      · exact Or.inl hzero.symm
      · exact Or.inr (rewardSafe_of_sum_pos hvote hle hluna hread hnonneg hlength hpos)
    · exact Or.inl ((toInt64_eq_zero_iff _).mpr hdvd)
  · intro bank votePeriod window voteTargets hvote hle hluna hread
    rw [rewardsWithinPool_iff sched k _ hvote hle voteTargets hknown, toInt64_eq_zero_iff]
    refine or_iff_left (fun hsafe => hread ⟨hsafe.valid, fun d hd => ?_⟩)
    have hfits := (hsafe.pools d hd).2
    rwa [periodReward_eq _ _ hluna, if_pos hd] at hfits

/-- Three winners of the small chain. -/
def threeWinners (weightA weightB weightC : ℤ) : SortedMap ValAddr Claim :=
  (((∅ : SortedMap ValAddr Claim).set "a" ⟨1, weightA, 1, "a"⟩).set "b" ⟨1, weightB, 1, "b"⟩).set
    "c" ⟨1, weightC, 1, "c"⟩

theorem rewards_within_pool_thirds :
    RewardsWithinPool Schedule.inOrder smallKeepers 5 50 ∅ (threeWinners 1 1 1) :=
  ((rewards_within_pool_iff Schedule.inOrder smallKeepers (threeWinners 1 1 1) (by decide)
    (by decide) (by decide)).1.mpr (Or.inl (by decide))) smallBank 5 50 ∅ (by decide) (by decide)
    (by decide) ⟨by decide, by decide +kernel⟩

/-- Seventeen vote targets. -/
def seventeenTargets : SortedMap Denom Dec :=
  ["uaud", "ucad", "uchf", "ucny", "udkk", "ueur", "ugbp", "uhkd", "uinr", "ujpy", "ukrw", "umnt",
    "unok", "usdr", "usek", "usgd", "uusd"].foldl (fun targets d => targets.set d Dec.zero) ∅

/-- The claim of a validator that won each of these ballots. -/
def seventeenWins (power : ℤ) (recipient : ValAddr) : Claim :=
  ⟨power, 17 * power, 17, recipient⟩

/-- Three validators with nearly all the power that consensus allows. -/
def seventeenWinners : SortedMap ValAddr Claim :=
  (((∅ : SortedMap ValAddr Claim).set "a" (seventeenWins 361700864190383366 "a")).set "b"
    (seventeenWins 361700864190383365 "b")).set "c" (seventeenWins 361700864190383365 "c")

/-- Seventeen targets pass, and the weights of three validators, whose powers keep to the cap
    `(2^63 - 1) / 8` of consensus, add up to `2^64 + 16`.  As `int64` that is 16: each share is
    far above one, and the pool of a million does not cover it. -/
theorem rewards_exceed_pool :
    (seventeenWinners.entries.map (fun e => e.2.power)).sum ≤ (2 ^ 63 - 1) / 8 ∧
    (∀ e ∈ seventeenWinners.entries, 0 ≤ e.2.weight ∧
      (smallKeepers.staking.validators.get e.2.recipient).isSome) ∧
    seventeenWinners.size < 10 ^ 18 ∧ microLunaDenom ∉ seventeenTargets.keys ∧
    PoolsReadable smallKeepers.bank (distributionRatio 5 50) seventeenTargets ∧
    ¬ RewardsWithinPool Schedule.inOrder smallKeepers 5 50 seventeenTargets seventeenWinners := by
  refine ⟨by decide, by decide, by decide, by decide, ⟨by decide, by decide +kernel⟩, ?_⟩
  rw [rewardsWithinPool_iff_isSome]
  decide +kernel

end TerraClassic.Oracle
