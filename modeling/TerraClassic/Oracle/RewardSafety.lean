import TerraClassic.Oracle.Order

/-! # When the reward step returns

    `RewardBallotWinners` adds up the period's share of each reward pool,
    multiplies it by each winner's part of the total weight, truncates, and
    sends the sum.  `rewardBallotWinners_isSome_iff` says for which pools and
    weights all of this goes through.
-/

namespace TerraClassic

/-! ### Amounts of decimal coins -/

namespace DecCoins

/-- `AmountOf`, as a raw value. -/
def amountOf (c : DecCoins) (d : String) : ℤ := (c.getD d Dec.zero).i

@[simp] theorem amountOf_empty (d : String) : amountOf ∅ d = 0 := rfl

theorem amountOf_put (c : DecCoins) (d : String) (x : Dec) (d' : String) :
    (c.put d x).amountOf d' = if d' = d then x.i else c.amountOf d' := by
  unfold amountOf
  by_cases h : d' = d
  · rw [if_pos h, h]
    unfold put SortedMap.getD
    split
    · next hz =>
      have hz' : x.i = 0 := by simpa [Dec.isZero] using hz
      rw [SortedMap.get_erase_self, hz']
      rfl
    · rw [SortedMap.get_set_self]
      rfl
  · rw [if_neg h, getD_put_ne c h]

/-- `TruncateDecimal` fails only on a negative amount. -/
theorem foldlM_truncateCoin (l : List (String × Dec)) (acc : Coins) :
    ((l.foldlM truncateCoin acc).isSome ↔ ∀ coin ∈ l, 0 ≤ coin.2.i) ∧
      ∀ c, l.foldlM truncateCoin acc = some c → ∀ d, c.amountOf d = acc.amountOf d +
        ((l.filter (fun e => e.1 = d)).map (fun e => e.2.truncateInt)).sum := by
  induction l generalizing acc with
  | nil =>
    refine ⟨by simp, ?_⟩
    intro c hc d
    obtain rfl := Option.some.inj hc
    simp
  | cons x rest ih =>
    rw [List.foldlM_cons]
    unfold truncateCoin at ih ⊢
    by_cases hneg : x.2.isNegative = true
    · have hlt : x.2.i < 0 := by simpa [Dec.isNegative] using hneg
      rw [if_pos hneg]
      refine ⟨⟨fun hf => by simp at hf, fun h => ?_⟩, fun c hc => by simp at hc⟩
      have := h x List.mem_cons_self
      omega
    · have hnn : 0 ≤ x.2.i := by simpa [Dec.isNegative] using hneg
      rw [if_neg hneg, Option.bind_eq_bind, Option.bind_some]
      obtain ⟨ih₁, ih₂⟩ := ih (acc.add (Coins.ofCoin x.1 x.2.truncateInt))
      refine ⟨?_, ?_⟩
      · rw [ih₁]
        simp [hnn]
      · intro c hc d
        rw [ih₂ c hc d, Coins.amountOf_add, Coins.amountOf_ofCoin]
        by_cases hd : d = x.1
        · simp [hd, add_assoc]
        · have hd' : x.1 ≠ d := fun heq => hd heq.symm
          simp [hd, hd']

end DecCoins

namespace Oracle

/-! ### The period's rewards -/

/-- The period's share of one pool, as a raw value. -/
def poolShare (bank : BankKeeper) (ratio : Dec) (d : Denom) : ℤ := bank.balance d * ratio.i

/-- Non-negative amounts within the bit bound. -/
def RewardsOk (c : DecCoins) : Prop := ∀ d, 0 ≤ c.amountOf d ∧ Dec.Fits (c.amountOf d)

theorem addPeriodReward_spec (bank : BankKeeper) (ratio : Dec) {c : DecCoins} (hc : RewardsOk c)
    (d : Denom) :
    ((addPeriodReward bank ratio c d).isSome ↔
      bank.validDenom d = true ∧ 0 ≤ poolShare bank ratio d ∧
        Dec.Fits (poolShare bank ratio d) ∧
        Dec.Fits (c.amountOf d + poolShare bank ratio d)) ∧
    ∀ c', addPeriodReward bank ratio c d = some c' → ∀ e,
      c'.amountOf e = c.amountOf e + if e = d then poolShare bank ratio d else 0 := by
  have hamount : Dec.chopPrecisionAndRound ((Dec.ofInt (bank.balance d)).i * ratio.i) =
      poolShare bank ratio d := by
    have : (Dec.ofInt (bank.balance d)).i * ratio.i = decOne * (bank.balance d * ratio.i) := by
      unfold Dec.ofInt
      ring
    rw [this]
    exact Rounding.roundHalfEven_mul _ Dec.decOne_pos _
  unfold addPeriodReward BankKeeper.getBalance
  cases hvalid : bank.validDenom d with
  | false => simp
  | true =>
    simp only [if_true, Option.bind_eq_bind, Option.bind_some, true_and]
    by_cases hzero : bank.balance d = 0
    · have hshare : poolShare bank ratio d = 0 := by simp [poolShare, hzero]
      rw [if_pos hzero, hshare]
      refine ⟨?_, ?_⟩
      · simp [Dec.fits_zero, (hc d).2]
      · intro c' hc' e
        rw [← Option.some.inj hc']
        simp
    · rw [if_neg hzero]
      have hmul : (Dec.ofInt (bank.balance d)).mul ratio =
          Dec.checked (poolShare bank ratio d) := by
        unfold Dec.mul
        rw [hamount]
      rw [hmul]
      by_cases hfit : Dec.Fits (poolShare bank ratio d)
      · rw [Dec.checked_of_fits hfit, Option.bind_some]
        unfold DecCoins.newDecCoinFromDec
        by_cases hneg : (⟨poolShare bank ratio d⟩ : Dec).isNegative = true
        · have hlt : poolShare bank ratio d < 0 := by simpa [Dec.isNegative] using hneg
          rw [if_pos hneg]
          refine ⟨⟨fun hf => by simp at hf, fun h => by omega⟩, fun c' hc' => by simp at hc'⟩
        · have hnn : 0 ≤ poolShare bank ratio d := by simpa [Dec.isNegative] using hneg
          rw [if_neg hneg, Option.bind_some]
          unfold DecCoins.add
          by_cases hsum : Dec.Fits (c.amountOf d + poolShare bank ratio d)
          · have hadd : (c.getD d Dec.zero).add ⟨poolShare bank ratio d⟩ =
                some ⟨c.amountOf d + poolShare bank ratio d⟩ := Dec.checked_of_fits hsum
            simp only [hadd, Option.bind_eq_bind, Option.bind_some]
            refine ⟨by simp [hnn, hfit, hsum], ?_⟩
            intro c' hc' e
            rw [← Option.some.inj hc', DecCoins.amountOf_put]
            by_cases he : e = d
            · simp [he]
            · simp [he]
          · have hadd : (c.getD d Dec.zero).add ⟨poolShare bank ratio d⟩ = none :=
              Dec.checked_of_not_fits hsum
            simp only [hadd]
            refine ⟨by simp [hsum], fun c' hc' => by simp at hc'⟩
      · rw [Dec.checked_of_not_fits hfit]
        refine ⟨by simp [hfit], fun c' hc' => by simp at hc'⟩

/-- Adding up the pools of a list of denoms, one of which may occur twice. -/
theorem foldlM_addPeriodReward (bank : BankKeeper) (ratio : Dec) (l : List Denom)
    {c : DecCoins} (hc : RewardsOk c) :
    ((l.foldlM (addPeriodReward bank ratio) c).isSome ↔
      ∀ d ∈ l, bank.validDenom d = true ∧ 0 ≤ poolShare bank ratio d ∧
        Dec.Fits (c.amountOf d + l.count d * poolShare bank ratio d)) ∧
    ∀ c', l.foldlM (addPeriodReward bank ratio) c = some c' → RewardsOk c' ∧
      ∀ d, c'.amountOf d = c.amountOf d + l.count d * poolShare bank ratio d := by
  induction l generalizing c with
  | nil =>
    refine ⟨by simp, ?_⟩
    intro c' hc'
    obtain rfl := Option.some.inj hc'
    exact ⟨hc, by simp⟩
  | cons x rest ih =>
    obtain ⟨hstep, hamount⟩ := addPeriodReward_spec bank ratio hc x
    rw [List.foldlM_cons]
    -- the pools of a denom are not negative, so partial sums fit when the whole does
    have hpart : ∀ {n : ℕ}, 0 ≤ poolShare bank ratio x →
        Dec.Fits (c.amountOf x + (n + 1 : ℕ) * poolShare bank ratio x) →
        Dec.Fits (poolShare bank ratio x) ∧ Dec.Fits (c.amountOf x + poolShare bank ratio x) := by
      intro n hnn hfit
      have hx := (hc x).1
      have hn : 0 ≤ (n : ℤ) * poolShare bank ratio x := mul_nonneg (Int.natCast_nonneg n) hnn
      have hsum : c.amountOf x + (n + 1 : ℕ) * poolShare bank ratio x =
          c.amountOf x + poolShare bank ratio x + n * poolShare bank ratio x := by
        push_cast
        ring
      rw [hsum] at hfit
      exact ⟨hfit.of_le hnn (by omega), hfit.of_le (by omega) (by omega)⟩
    cases h : addPeriodReward bank ratio c x with
    | none =>
      rw [h] at hstep
      refine ⟨⟨fun hf => by simp at hf, fun hall => ?_⟩, fun c' hc' => by simp at hc'⟩
      obtain ⟨hvalid, hnn, hfit⟩ := hall x List.mem_cons_self
      rw [List.count_cons_self] at hfit
      obtain ⟨h₁, h₂⟩ := hpart hnn hfit
      have := hstep.mpr ⟨hvalid, hnn, h₁, h₂⟩
      cases this
    | some c₁ =>
      rw [h] at hstep
      obtain ⟨hvalid, hnn, hfit, hsum⟩ := hstep.mp rfl
      have hamount := hamount c₁ h
      have hc₁ : RewardsOk c₁ := by
        intro d
        rw [hamount d]
        by_cases hd : d = x
        · rw [if_pos hd, hd]
          have := (hc x).1
          exact ⟨by omega, hsum⟩
        · rw [if_neg hd, add_zero]
          exact hc d
      have hcount : ∀ d, c₁.amountOf d + rest.count d * poolShare bank ratio d =
          c.amountOf d + (x :: rest).count d * poolShare bank ratio d := by
        intro d
        rw [hamount d]
        by_cases hd : d = x
        · rw [if_pos hd, hd, List.count_cons_self]
          push_cast
          ring
        · have hd' : x ≠ d := fun heq => hd heq.symm
          rw [if_neg hd, List.count_cons_of_ne hd', add_zero]
      obtain ⟨ih₁, ih₂⟩ := ih hc₁
      rw [Option.bind_eq_bind, Option.bind_some]
      simp only [hcount] at ih₁ ih₂
      refine ⟨?_, ih₂⟩
      rw [ih₁]
      constructor
      · intro hall d hd
        rcases List.mem_cons.mp hd with rfl | hd
        · refine ⟨hvalid, hnn, ?_⟩
          by_cases hmem : d ∈ rest
          · exact (hall d hmem).2.2
          · rw [List.count_cons_self, List.count_eq_zero_of_not_mem hmem]
            simpa using hsum
        · exact hall d hd
      · exact fun hall d hd => hall d (List.mem_cons_of_mem _ hd)

/-! ### The coins of one winner -/

/-- What a winner gets of one denom before truncation, as a raw value. -/
def payout (rewards : DecCoins) (powerSum weight : ℤ) (d : Denom) : ℤ :=
  Dec.chopPrecisionAndRound (rewards.amountOf d * (weight * decOne).tdiv powerSum)

theorem payout_of_get {rewards : DecCoins} {d : Denom} {x : Dec} (h : rewards.get d = some x)
    (powerSum weight : ℤ) :
    payout rewards powerSum weight d =
      Dec.chopPrecisionAndRound (x.i * (weight * decOne).tdiv powerSum) := by
  unfold payout DecCoins.amountOf SortedMap.getD
  rw [h]
  rfl

theorem payout_of_get_none {rewards : DecCoins} {d : Denom} (h : rewards.get d = none)
    (powerSum weight : ℤ) : payout rewards powerSum weight d = 0 := by
  unfold payout DecCoins.amountOf SortedMap.getD
  rw [h]
  simp [Dec.zero, Dec.chopPrecisionAndRound, Rounding.roundHalfEven, Rounding.roundNat]

/-- The products of a winner's share, when they fit. -/
theorem mulDec_spec (rewards : DecCoins) (powerSum weight : ℤ) :
    ((DecCoins.mulDec rewards ⟨(weight * decOne).tdiv powerSum⟩).isSome ↔
      ∀ d, Dec.Fits (payout rewards powerSum weight d)) ∧
    ∀ products, DecCoins.mulDec rewards ⟨(weight * decOne).tdiv powerSum⟩ = some products →
      products = (rewards.entries.map (fun e =>
        (e.1, (⟨payout rewards powerSum weight e.1⟩ : Dec)))).filter (fun c => !c.2.isZero) := by
  have hone : ∀ e ∈ rewards.entries,
      e.2.mul ⟨(weight * decOne).tdiv powerSum⟩ =
        Dec.checked (payout rewards powerSum weight e.1) := by
    intro e he
    rw [payout_of_get (SortedMap.mem_entries.mp he)]
    rfl
  unfold DecCoins.mulDec
  -- a denom without a reward has payout zero, so only the entries matter
  by_cases hall : ∀ d, Dec.Fits (payout rewards powerSum weight d)
  · have hmap : rewards.entries.mapM (fun coin => do
        let amount ← coin.2.mul ⟨(weight * decOne).tdiv powerSum⟩
        return (coin.1, amount)) =
        some (rewards.entries.map (fun e =>
          (e.1, (⟨payout rewards powerSum weight e.1⟩ : Dec)))) := by
      apply Reorder.mapM_eq_some_map
      intro e he
      rw [hone e he, Dec.checked_of_fits (hall e.1)]
      rfl
    rw [hmap]
    refine ⟨⟨fun _ => hall, fun _ => rfl⟩, ?_⟩
    intro products h
    exact (Option.some.inj h).symm
  · have hnone : rewards.entries.mapM (fun coin => do
        let amount ← coin.2.mul ⟨(weight * decOne).tdiv powerSum⟩
        return (coin.1, amount)) = none := by
      rw [← Option.not_isSome_iff_eq_none, Reorder.mapM_isSome_iff]
      intro h
      apply hall
      intro d
      cases hget : rewards.get d with
      | none => rw [payout_of_get_none hget]; exact Dec.fits_zero
      | some x =>
        have he := SortedMap.mem_entries.mpr hget
        have := h _ he
        rw [hone _ he] at this
        by_contra hnot
        rw [Dec.checked_of_not_fits hnot] at this
        cases this
    rw [hnone]
    refine ⟨⟨fun hf => by simp at hf, fun h => absurd h hall⟩, fun products h => by simp at h⟩

theorem sum_truncated (rewards : DecCoins) (powerSum weight : ℤ) (d : Denom) :
    ((((rewards.entries.map (fun e =>
        (e.1, (⟨payout rewards powerSum weight e.1⟩ : Dec)))).filter (fun c => !c.2.isZero)).filter
        (fun e => e.1 = d)).map (fun e => e.2.truncateInt)).sum =
      (payout rewards powerSum weight d).tdiv decOne := by
  have hdrop : ∀ l : List (Denom × Dec),
      ((l.filter (fun e => decide (e.1 = d) && !e.2.isZero)).map
        (fun e => e.2.truncateInt)).sum =
      ((l.filter (fun e => e.1 = d)).map (fun e => e.2.truncateInt)).sum := by
    intro l
    induction l with
    | nil => rfl
    | cons x rest ih =>
      by_cases hz : x.2.isZero = true
      · have hx : x.2.truncateInt = 0 := by
          have : x.2.i = 0 := by simpa [Dec.isZero] using hz
          simp [Dec.truncateInt, this]
        by_cases hd : x.1 = d <;> simp [hz, hd, hx, ih]
      · by_cases hd : x.1 = d <;> simp [hz, hd, ih]
  have hmap : ∀ l : List (Denom × Dec), (∀ e ∈ l, rewards.get e.1 = some e.2) →
      (((l.map (fun e => (e.1, (⟨payout rewards powerSum weight e.1⟩ : Dec)))).filter
        (fun e => e.1 = d)).map (fun e => e.2.truncateInt)).sum =
      ((l.filter (fun e => e.1 = d)).map (fun _ =>
        (payout rewards powerSum weight d).tdiv decOne)).sum := by
    intro l hl
    induction l with
    | nil => rfl
    | cons x rest ih =>
      have ih := ih (fun e he => hl e (List.mem_cons_of_mem _ he))
      by_cases hd : x.1 = d
      · simp only [List.map_cons, List.filter_cons, hd, decide_true, if_true, List.sum_cons, ih]
        rfl
      · simp only [List.map_cons, List.filter_cons, hd, decide_false, Bool.false_eq_true, if_false,
          ih]
  rw [List.filter_filter, hdrop, hmap _ (fun e he => SortedMap.mem_entries.mp he)]
  cases hget : rewards.get d with
  | none =>
    rw [payout_of_get_none hget]
    simp
  | some x =>
    -- the denom has exactly one entry
    have hone : rewards.entries.filter (fun e => e.1 = d) = [(d, x)] := by
      exact SortedMap.filter_key_eq hget
    rw [hone]
    simp

/-- A winner's coins exist when every payout fits and none is negative. -/
theorem rewardCoins_spec (rewards : DecCoins) {powerSum : ℤ} (hsum : powerSum ≠ 0) (weight : ℤ) :
    ((rewardCoins rewards powerSum weight).isSome ↔
      ∀ d, Dec.Fits (payout rewards powerSum weight d) ∧
        0 ≤ payout rewards powerSum weight d) ∧
    ∀ coins, rewardCoins rewards powerSum weight = some coins → ∀ d,
      coins.amountOf d = (payout rewards powerSum weight d).tdiv decOne := by
  have hquo : (Dec.ofInt weight).quoInt64 powerSum = some ⟨(weight * decOne).tdiv powerSum⟩ :=
    if_neg hsum
  obtain ⟨hmul, hproducts⟩ := mulDec_spec rewards powerSum weight
  unfold rewardCoins
  rw [hquo]
  simp only [Option.bind_eq_bind, Option.bind_some]
  cases h : DecCoins.mulDec rewards ⟨(weight * decOne).tdiv powerSum⟩ with
  | none =>
    rw [h] at hmul
    refine ⟨⟨fun hf => by simp at hf, fun hall => ?_⟩, fun c hc => by simp at hc⟩
    have := hmul.mpr (fun d => (hall d).1)
    cases this
  | some products =>
    rw [h] at hmul
    have hfit := hmul.mp rfl
    obtain rfl := hproducts products h
    unfold DecCoins.truncateDecimal
    rw [Option.bind_some]
    obtain ⟨hsome, hamount⟩ := DecCoins.foldlM_truncateCoin ((rewards.entries.map (fun e =>
      (e.1, (⟨payout rewards powerSum weight e.1⟩ : Dec)))).filter (fun c => !c.2.isZero)) ∅
    refine ⟨?_, ?_⟩
    · rw [hsome]
      constructor
      · intro hall d
        refine ⟨hfit d, ?_⟩
        cases hget : rewards.get d with
        | none => rw [payout_of_get_none hget]
        | some x =>
          by_cases hz : payout rewards powerSum weight d = 0
          · exact hz.ge
          -- a product that is not zero stays in the list, and its coin was checked
          · apply hall (d, ⟨payout rewards powerSum weight d⟩)
            rw [List.mem_filter]
            refine ⟨List.mem_map.mpr ⟨(d, x), SortedMap.mem_entries.mpr hget, rfl⟩, ?_⟩
            simpa [Dec.isZero] using hz
      · intro hall coin hcoin
        obtain ⟨e, _, rfl⟩ := List.mem_map.mp (List.mem_of_mem_filter hcoin)
        exact (hall e.1).2
    · intro coins hc d
      rw [hamount coins hc d, sum_truncated]
      simp

/-! ### All winners -/

/-- One round of the payout loop. -/
theorem doleOut_spec (staking : StakingKeeper) (rewards : DecCoins) {powerSum : ℤ}
    (hsum : powerSum ≠ 0) (r : Reward) (e : ValAddr × Claim) :
    ((doleOut staking rewards powerSum r e).isSome ↔
      (rewardCoins rewards powerSum e.2.weight).isSome ∧
        (staking.validators.get e.2.recipient).isSome) ∧
    ∀ r', doleOut staking rewards powerSum r e = some r' → ∀ d,
      r'.sent.amountOf d =
        r.sent.amountOf d + (payout rewards powerSum e.2.weight d).tdiv decOne := by
  obtain ⟨_, hamount⟩ := rewardCoins_spec rewards hsum e.2.weight
  unfold doleOut
  cases hcoins : rewardCoins rewards powerSum e.2.weight with
  | none => simp
  | some coins =>
    have hamount := hamount coins hcoins
    rw [Option.bind_eq_bind, Option.bind_some]
    cases hval : staking.validators.get e.2.recipient with
    | none => exact ⟨by simp [failure], fun r' h => by simp [failure] at h⟩
    | some v =>
      by_cases hz : coins.isZero = true
      · simp only [hz, if_true]
        refine ⟨by simp, ?_⟩
        intro r' h d
        rw [← Option.some.inj h, ← hamount d, (Coins.isZero_iff coins).mp hz d, add_zero]
      · simp only [hz, Bool.false_eq_true, if_false]
        refine ⟨by simp, ?_⟩
        intro r' h d
        rw [← Option.some.inj h, ← hamount d]
        exact Coins.amountOf_add _ _ d

/-- The payout loop. -/
theorem foldlM_doleOut (staking : StakingKeeper) (rewards : DecCoins) {powerSum : ℤ}
    (hsum : powerSum ≠ 0) (l : List (ValAddr × Claim)) (r : Reward) :
    ((l.foldlM (doleOut staking rewards powerSum) r).isSome ↔
      ∀ e ∈ l, (rewardCoins rewards powerSum e.2.weight).isSome ∧
        (staking.validators.get e.2.recipient).isSome) ∧
    ∀ r', l.foldlM (doleOut staking rewards powerSum) r = some r' → ∀ d,
      r'.sent.amountOf d = r.sent.amountOf d +
        (l.map (fun e => (payout rewards powerSum e.2.weight d).tdiv decOne)).sum := by
  induction l generalizing r with
  | nil =>
    refine ⟨by simp, ?_⟩
    intro r' h d
    rw [← Option.some.inj h]
    simp
  | cons e rest ih =>
    obtain ⟨hstep, hamount⟩ := doleOut_spec staking rewards hsum r e
    rw [List.foldlM_cons]
    cases h : doleOut staking rewards powerSum r e with
    | none =>
      rw [h] at hstep
      refine ⟨⟨fun hf => by simp at hf, fun hall => ?_⟩, fun r' h => by simp at h⟩
      have := hstep.mpr (hall e List.mem_cons_self)
      cases this
    | some r₁ =>
      rw [h] at hstep
      obtain ⟨ih₁, ih₂⟩ := ih r₁
      rw [Option.bind_eq_bind, Option.bind_some]
      refine ⟨?_, ?_⟩
      -- the rounds fail independently of what was sent before
      · rw [ih₁, List.forall_mem_cons]
        exact ⟨fun hall => ⟨hstep.mp rfl, hall⟩, fun hall => hall.2⟩
      · intro r' hr' d
        rw [ih₂ r' hr' d, hamount r₁ h d, List.map_cons, List.sum_cons, add_assoc]

theorem covers_iff (bank : BankKeeper) (coins : Coins) :
    bank.covers coins = true ↔ ∀ d, coins.amountOf d ≤ bank.balance d := by
  unfold BankKeeper.covers
  rw [List.all_eq_true]
  constructor
  · intro h d
    unfold Coins.amountOf SortedMap.getD
    cases hget : coins.get d with
    | none => exact Int.natCast_nonneg _
    | some x => simpa using h (d, x) (SortedMap.mem_entries.mpr hget)
  · rintro h ⟨d, x⟩ hmem
    have := h d
    unfold Coins.amountOf SortedMap.getD at this
    rw [SortedMap.mem_entries.mp hmem] at this
    simpa using this

/-! ### The whole step -/

/-- `votePeriod / rewardDistributionWindow`. -/
def distributionRatio (votePeriod window : ℤ) : Dec := ⟨(votePeriod * decOne).tdiv window⟩

/-- The period's reward in a denom.  Luna is listed once more than the other
    targets, so its pool counts twice when it is itself a target. -/
def periodReward (bank : BankKeeper) (ratio : Dec) (voteTargets : SortedMap Denom Dec)
    (d : Denom) : ℤ :=
  (microLunaDenom :: voteTargets.keys).count d * poolShare bank ratio d

/-- The reward in a denom for a weight, before truncation. -/
def weightReward (reward powerSum weight : ℤ) : ℤ :=
  Dec.chopPrecisionAndRound (reward * (weight * decOne).tdiv powerSum)

/-- What the reward step needs of the pools and the winners' weights: valid
    denoms, shares of the pools that are not negative and fit, payouts that are
    not negative and fit, and enough coins for them. -/
structure RewardSafe (bank : BankKeeper) (ratio : Dec) (voteTargets : SortedMap Denom Dec)
    (powerSum : ℤ) (weights : List ℤ) : Prop where
  valid : ∀ d ∈ voteTargets.keys, bank.validDenom d = true
  pools : ∀ d ∈ microLunaDenom :: voteTargets.keys, 0 ≤ poolShare bank ratio d ∧
    Dec.Fits (periodReward bank ratio voteTargets d)
  payouts : ∀ w ∈ weights, ∀ d,
    Dec.Fits (weightReward (periodReward bank ratio voteTargets d) powerSum w) ∧
      0 ≤ weightReward (periodReward bank ratio voteTargets d) powerSum w
  covered : ∀ d, (weights.map (fun w =>
    (weightReward (periodReward bank ratio voteTargets d) powerSum w).tdiv decOne)).sum ≤
      bank.balance d

theorem rewardsOk_empty : RewardsOk ∅ := fun _ => ⟨le_rfl, Dec.fits_zero⟩

/-- The part of the reward step after the pools were added up. -/
theorem payWinners_isSome_iff (k : Keepers) {rewards : DecCoins} {reward : Denom → ℤ}
    (hrewards : ∀ d, rewards.amountOf d = reward d) {powerSum : ℤ} (hsum : powerSum ≠ 0)
    {winners : List (ValAddr × Claim)}
    (hknown : ∀ e ∈ winners, (k.staking.validators.get e.2.recipient).isSome) :
    ((winners.foldlM (doleOut k.staking rewards powerSum) Reward.none).bind fun reward =>
        if k.bank.covers reward.sent then some reward else none).isSome ↔
      (∀ w ∈ winners.map (fun e => e.2.weight), ∀ d,
        Dec.Fits (weightReward (reward d) powerSum w) ∧ 0 ≤ weightReward (reward d) powerSum w) ∧
      ∀ d, ((winners.map (fun e => e.2.weight)).map (fun w =>
        (weightReward (reward d) powerSum w).tdiv decOne)).sum ≤ k.bank.balance d := by
  have hpay : ∀ w d, payout rewards powerSum w d = weightReward (reward d) powerSum w := by
    intro w d
    unfold payout weightReward
    rw [hrewards]
  obtain ⟨hsome, hsent⟩ := foldlM_doleOut k.staking rewards hsum winners Reward.none
  have hcoins : (∀ e ∈ winners, (rewardCoins rewards powerSum e.2.weight).isSome ∧
      (k.staking.validators.get e.2.recipient).isSome) ↔
      ∀ w ∈ winners.map (fun e => e.2.weight), ∀ d,
        Dec.Fits (weightReward (reward d) powerSum w) ∧
          0 ≤ weightReward (reward d) powerSum w := by
    rw [List.forall_mem_map]
    refine forall₂_congr (fun e he => ?_)
    rw [(rewardCoins_spec rewards hsum e.2.weight).1]
    simp only [hpay, hknown e he, and_true]
  rw [hcoins] at hsome
  cases hfold : winners.foldlM (doleOut k.staking rewards powerSum) Reward.none with
  | none =>
    rw [hfold] at hsome
    refine ⟨fun hf => by simp at hf, fun h => ?_⟩
    have := hsome.mpr h.1
    cases this
  | some r =>
    rw [hfold] at hsome
    have hsent := hsent r hfold
    -- what is sent in one denom is the sum of the truncated payouts
    have hcov : k.bank.covers r.sent = true ↔
        ∀ d, ((winners.map (fun e => e.2.weight)).map (fun w =>
          (weightReward (reward d) powerSum w).tdiv decOne)).sum ≤ k.bank.balance d := by
      rw [covers_iff]
      refine forall_congr' (fun d => ?_)
      rw [hsent d, List.map_map]
      simp only [hpay, Reward.none, Coins.amountOf_empty, zero_add]
      rfl
    rw [Option.bind_some, ← hcov]
    constructor
    · intro h
      refine ⟨hsome.mp rfl, ?_⟩
      by_contra hnot
      rw [if_neg hnot] at h
      cases h
    · intro h
      rw [if_pos h.2]
      rfl

/-- When the reward step returns. -/
theorem rewardBallotWinners_isSome_iff (sched : Schedule) (k : Keepers) {votePeriod window : ℤ}
    (hwindow : window ≠ 0) (voteTargets : SortedMap Denom Dec)
    {winners : SortedMap ValAddr Claim}
    (hknown : ∀ e ∈ winners.entries, (k.staking.validators.get e.2.recipient).isSome) :
    (rewardBallotWinners sched k votePeriod window voteTargets winners).isSome ↔
      ballotPowerSum winners.entries = 0 ∨
        RewardSafe k.bank (distributionRatio votePeriod window) voteTargets
          (ballotPowerSum winners.entries) (winners.entries.map (fun e => e.2.weight)) := by
  have heq : rewardBallotWinners sched k votePeriod window voteTargets winners =
      if ballotPowerSum winners.entries = 0 then some Reward.none
      else ((microLunaDenom :: voteTargets.keys).foldlM
          (addPeriodReward k.bank (distributionRatio votePeriod window)) ∅).bind fun rewards =>
        (winners.entries.foldlM (doleOut k.staking rewards (ballotPowerSum winners.entries))
          Reward.none).bind fun reward =>
            if k.bank.covers reward.sent then some reward else none := by
    have hquo : (Dec.ofInt votePeriod).quoInt64 window =
        some (distributionRatio votePeriod window) := if_neg hwindow
    rw [rewardBallotWinners_sched sched Schedule.inOrder]
    unfold rewardBallotWinners
    rw [hquo]
    rfl
  obtain ⟨hpools, hrewards⟩ := foldlM_addPeriodReward k.bank
    (distributionRatio votePeriod window) (microLunaDenom :: voteTargets.keys) rewardsOk_empty
  rw [heq]
  by_cases hsum : ballotPowerSum winners.entries = 0
  · rw [if_pos hsum]
    exact ⟨fun _ => Or.inl hsum, fun _ => rfl⟩
  · rw [if_neg hsum]
    cases hfold : (microLunaDenom :: voteTargets.keys).foldlM
        (addPeriodReward k.bank (distributionRatio votePeriod window)) ∅ with
    | none =>
      rw [hfold] at hpools
      refine ⟨fun hf => by simp at hf, fun h => ?_⟩
      rcases h with h | h
      · exact absurd h hsum
      · have := hpools.mpr (fun d hd => ⟨?_, (h.pools d hd).1, ?_⟩)
        · cases this
        · rcases List.mem_cons.mp hd with rfl | hd
          · exact k.bank.luna_valid
          · exact h.valid d hd
        · simpa [periodReward] using (h.pools d hd).2
    | some rewards =>
      rw [hfold] at hpools
      have hpools := hpools.mp rfl
      have hamount : ∀ d, rewards.amountOf d =
          periodReward k.bank (distributionRatio votePeriod window) voteTargets d := by
        intro d
        rw [(hrewards rewards hfold).2 d, DecCoins.amountOf_empty, zero_add]
        rfl
      rw [Option.bind_some, payWinners_isSome_iff k hamount hsum hknown]
      constructor
      · rintro ⟨hpay, hcov⟩
        refine Or.inr ⟨fun d hd => (hpools d (List.mem_cons_of_mem _ hd)).1, ?_, hpay, hcov⟩
        intro d hd
        exact ⟨(hpools d hd).2.1, by simpa [periodReward] using (hpools d hd).2.2⟩
      · rintro (h | h)
        · exact absurd h hsum
        · exact ⟨h.payouts, h.covered⟩

end Oracle

end TerraClassic
