import Mathlib.Order.Bounds.Basic
import TerraClassic.Ante.Fee

/-! # The priority of a transaction

    `getTxPriority` is meant to return the smallest gas price of a fee.  It keeps
    a running minimum that starts at zero, and takes zero for "no coin yet".  Zero
    is a gas price too, that of a coin below the gas limit: after such a coin the
    minimum starts again with the next one.

    * `markedMin`: the loop on prices alone.
    * `priority_iff`: the priority is the least price when the fee has no coin
      below the gas limit, or ends with one; and it is so in every order of
      the coins when there is no such coin, or no other.
-/

namespace TerraClassic.Ante

/-- The gas price of a coin, capped at the largest priority. -/
def gasPrice (gas : ℤ) (coin : Coin) : ℤ := min (coin.amount / gas) maxInt64

/-- The gas prices of a fee. -/
def gasPrices (gas : ℤ) (fee : List Coin) : Set ℤ := {p | ∃ coin ∈ fee, gasPrice gas coin = p}

/-- A running minimum with zero as the mark of a minimum that is not set. -/
def markedMin (prices : List ℤ) : ℤ :=
  prices.foldl (fun least p => if least = 0 ∨ p < least then p else least) 0

/-! ### The loop -/

/-- One coin, for an amount that is not negative. -/
theorem priorityStep_eq {gas priority : ℤ} (hgas : 0 < gas) {coin : Coin}
    (hamount : 0 ≤ coin.amount) :
    priorityStep gas priority coin =
      some (if priority = 0 ∨ gasPrice gas coin < priority then gasPrice gas coin
        else priority) := by
  have hquo : coin.amount.tdiv gas = coin.amount / gas := Int.tdiv_eq_ediv_of_nonneg hamount
  have hnonneg : 0 ≤ coin.amount / gas := Int.ediv_nonneg hamount hgas.le
  have hprice : (if -2 ^ 63 ≤ coin.amount / gas ∧ coin.amount / gas ≤ maxInt64
      then coin.amount / gas else maxInt64) = gasPrice gas coin := by
    unfold gasPrice
    split
    · next hin => exact (min_eq_left hin.2).symm
    · next hout =>
      refine (min_eq_right (not_le.mp (fun hle => hout ⟨?_, hle⟩)).le).symm
      exact le_trans (by norm_num) hnonneg
  unfold priorityStep
  rw [if_neg hgas.ne', hquo]
  simp only [hprice]

theorem getTxPriority_eq {gas : ℤ} (hgas : 0 < gas) {fee : List Coin}
    (hfee : ∀ coin ∈ fee, 0 ≤ coin.amount) :
    getTxPriority fee gas = some (markedMin (fee.map (gasPrice gas))) := by
  have hloop : ∀ (l : List Coin) (least : ℤ), (∀ coin ∈ l, 0 ≤ coin.amount) →
      l.foldlM (priorityStep gas) least = some ((l.map (gasPrice gas)).foldl
        (fun least p => if least = 0 ∨ p < least then p else least) least) := by
    intro l
    induction l with
    | nil => exact fun _ _ => rfl
    | cons coin rest ih =>
      intro least hl
      rw [List.foldlM_cons, priorityStep_eq hgas (hl coin List.mem_cons_self)]
      exact ih _ (fun c hc => hl c (List.mem_cons_of_mem _ hc))
  exact hloop fee 0 hfee

/-- A coin has the price zero when it is below the gas limit. -/
theorem gasPrice_eq_zero_iff {gas : ℤ} (hgas : 0 < gas) {coin : Coin}
    (hamount : 0 ≤ coin.amount) : gasPrice gas coin = 0 ↔ coin.amount < gas := by
  have hmax : (0 : ℤ) < maxInt64 := by decide
  have hone : 1 ≤ coin.amount / gas ↔ 1 * gas ≤ coin.amount := Int.le_ediv_iff_mul_le hgas
  have hnonneg : 0 ≤ coin.amount / gas := Int.ediv_nonneg hamount hgas.le
  unfold gasPrice
  omega

theorem gasPrice_nonneg {gas : ℤ} (hgas : 0 < gas) {coin : Coin} (hamount : 0 ≤ coin.amount) :
    0 ≤ gasPrice gas coin :=
  le_min (Int.ediv_nonneg hamount hgas.le) (by decide)

/-! ### The marked minimum -/

theorem markedMin_concat (prices : List ℤ) (p : ℤ) :
    markedMin (prices ++ [p]) =
      if markedMin prices = 0 ∨ p < markedMin prices then p else markedMin prices := by
  unfold markedMin
  rw [List.foldl_append]
  rfl

/-- The minimum is one of the prices. -/
theorem markedMin_mem {prices : List ℤ} (hne : prices ≠ []) : markedMin prices ∈ prices := by
  induction prices using List.reverseRecOn with
  | nil => exact absurd rfl hne
  | append_singleton rest p ih =>
    rw [markedMin_concat]
    split
    · simp
    · next hold =>
      have hrest : rest ≠ [] := by
        rintro rfl
        exact hold (Or.inl rfl)
      exact List.mem_append_left _ (ih hrest)

theorem markedMin_nonneg {prices : List ℤ} (h : ∀ p ∈ prices, 0 ≤ p) : 0 ≤ markedMin prices := by
  by_cases hne : prices = []
  · rw [hne]
    exact le_rfl
  · exact h _ (markedMin_mem hne)

/-- Without zeros it is below all of them. -/
theorem markedMin_le {prices : List ℤ} (h : ∀ p ∈ prices, 0 < p) :
    ∀ p ∈ prices, markedMin prices ≤ p := by
  induction prices using List.reverseRecOn with
  | nil => exact nofun
  | append_singleton rest last ih =>
    have hrest : ∀ p ∈ rest, 0 < p := fun p hp => h p (List.mem_append_left _ hp)
    intro p hp
    rw [markedMin_concat]
    rcases List.mem_append.mp hp with hp | hp
    · have hle := ih hrest p hp
      have hpos : 0 < markedMin rest := hrest _ (markedMin_mem (List.ne_nil_of_mem hp))
      split
      · next hset => exact (hset.resolve_left hpos.ne').le.trans hle
      · exact hle
    · rw [List.mem_singleton.mp hp]
      split
      · exact le_rfl
      · next hold => exact not_lt.mp (fun hlt => hold (Or.inr hlt))

/-- It is zero exactly when the last price is. -/
theorem markedMin_concat_eq_zero_iff {prices : List ℤ} {last : ℤ}
    (h : ∀ p ∈ prices, 0 ≤ p) : markedMin (prices ++ [last]) = 0 ↔ last = 0 := by
  have hnonneg := markedMin_nonneg h
  rw [markedMin_concat]
  split
  · exact Iff.rfl
  · next hold =>
    constructor
    · intro hzero
      exact absurd (Or.inl hzero) hold
    · intro hzero
      refine absurd (Or.inr ?_) hold
      rw [hzero]
      exact lt_of_le_of_ne hnonneg (fun heq => hold (Or.inl heq.symm))

/-- The least of prices that are not negative, exactly when there is no zero among them
    or the last one is zero. -/
theorem markedMin_isLeast_iff {prices : List ℤ} {last : ℤ}
    (h : ∀ p ∈ prices ++ [last], 0 ≤ p) :
    IsLeast {p | p ∈ prices ++ [last]} (markedMin (prices ++ [last])) ↔
      (∀ p ∈ prices ++ [last], p ≠ 0) ∨ last = 0 := by
  have hmem : markedMin (prices ++ [last]) ∈ prices ++ [last] := markedMin_mem (by simp)
  have hzero : markedMin (prices ++ [last]) = 0 ↔ last = 0 :=
    markedMin_concat_eq_zero_iff (fun p hp => h p (List.mem_append_left _ hp))
  constructor
  · intro hleast
    by_cases hno : ∀ p ∈ prices ++ [last], p ≠ 0
    · exact Or.inl hno
    · -- some price is zero, so the least one is
      push Not at hno
      obtain ⟨p, hp, rfl⟩ := hno
      exact Or.inr (hzero.mp (le_antisymm (hleast.2 hp) (h _ hmem)))
  · rintro (hno | hlast)
    · refine ⟨hmem, fun p hp => ?_⟩
      exact markedMin_le (fun q hq => lt_of_le_of_ne (h q hq) (Ne.symm (hno q hq))) p hp
    · refine ⟨hmem, fun p hp => ?_⟩
      rw [hzero.mpr hlast]
      exact h p hp

/-! ### The priority -/

/-- The priority of a fee is its least gas price. -/
def LeastPriority (fee : List Coin) (gas : ℤ) : Prop :=
  ∃ p, getTxPriority fee gas = some p ∧ IsLeast (gasPrices gas fee) p

/-- The priority is the least gas price in every order of the coins, and no higher
    than it was before one of them was added. -/
structure TruePriority (fee : List Coin) (gas : ℤ) : Prop where
  least : ∀ fee', fee'.Perm fee → LeastPriority fee' gas
  added : ∀ coin before, before ≠ [] → (coin :: before).Perm fee →
    ∀ p p', getTxPriority before gas = some p → getTxPriority fee gas = some p' → p' ≤ p

section

variable {gas : ℤ} (hgas : 0 < gas) {fee : List Coin} (hfee : ∀ coin ∈ fee, 0 ≤ coin.amount)
include hgas hfee

/-- Either no coin is below the gas limit, or the last one is. -/
theorem leastPriority_iff (hne : fee ≠ []) :
    LeastPriority fee gas ↔
      (∀ coin ∈ fee, gas ≤ coin.amount) ∨ (fee.getLast hne).amount < gas := by
  obtain ⟨rest, last, rfl⟩ : ∃ rest last, fee = rest ++ [last] :=
    ⟨fee.dropLast, fee.getLast hne, (List.dropLast_append_getLast hne).symm⟩
  have hmem : ∀ p, p ∈ rest.map (gasPrice gas) ++ [gasPrice gas last] ↔
      p ∈ gasPrices gas (rest ++ [last]) := by
    intro p
    simp [gasPrices, eq_comm]
  have hset : gasPrices gas (rest ++ [last]) =
      {p | p ∈ rest.map (gasPrice gas) ++ [gasPrice gas last]} :=
    Set.ext (fun p => (hmem p).symm)
  have hprices : ∀ p ∈ rest.map (gasPrice gas) ++ [gasPrice gas last], 0 ≤ p := by
    intro p hp
    obtain ⟨coin, hcoin, rfl⟩ := (hmem p).mp hp
    exact gasPrice_nonneg hgas (hfee coin hcoin)
  have hleast := markedMin_isLeast_iff hprices
  have hpriority := getTxPriority_eq hgas hfee
  rw [List.map_append] at hpriority
  have hzero : ∀ coin ∈ rest ++ [last], gasPrice gas coin ≠ 0 ↔ gas ≤ coin.amount := by
    intro coin hcoin
    rw [ne_eq, gasPrice_eq_zero_iff hgas (hfee coin hcoin), not_lt]
  unfold LeastPriority
  rw [hset, hpriority, List.getLast_append_singleton,
    ← gasPrice_eq_zero_iff hgas (hfee last (by simp))]
  constructor
  · rintro ⟨p, hp, hisLeast⟩
    rw [← Option.some.inj hp] at hisLeast
    rcases hleast.mp hisLeast with hno | hlast
    · refine Or.inl (fun coin hcoin => (hzero coin hcoin).mp (hno _ ?_))
      exact (hmem _).mpr ⟨coin, hcoin, rfl⟩
    · exact Or.inr hlast
  · intro h
    refine ⟨_, rfl, hleast.mpr ?_⟩
    rcases h with hno | hlast
    · refine Or.inl (fun p hp => ?_)
      obtain ⟨coin, hcoin, rfl⟩ := (hmem p).mp hp
      exact (hzero coin hcoin).mpr (hno coin hcoin)
    · exact Or.inr hlast

/-- Coins that are all on one side of the gas limit have their least price in every order. -/
theorem leastPriority_of_alike (hne : fee ≠ [])
    (h : (∀ coin ∈ fee, gas ≤ coin.amount) ∨ ∀ coin ∈ fee, coin.amount < gas) :
    LeastPriority fee gas :=
  (leastPriority_iff hgas hfee hne).mpr (h.imp id (fun hall => hall _ (List.getLast_mem hne)))

/-- A coin below the gas limit can be put first, and the others then hide it. -/
theorem alike_of_every_order (hne : fee ≠ [])
    (h : ∀ fee', fee'.Perm fee → LeastPriority fee' gas) :
    (∀ coin ∈ fee, gas ≤ coin.amount) ∨ ∀ coin ∈ fee, coin.amount < gas := by
  by_cases hall : ∀ coin ∈ fee, coin.amount < gas
  · exact Or.inr hall
  · push Not at hall
    obtain ⟨last, hlast, hge⟩ := hall
    obtain ⟨rest, hperm⟩ : ∃ rest, (rest ++ [last]).Perm fee := by
      obtain ⟨l₁, l₂, rfl⟩ := List.append_of_mem hlast
      exact ⟨l₁ ++ l₂, (List.perm_append_singleton _ _).trans List.perm_middle.symm⟩
    have hfee' : ∀ coin ∈ rest ++ [last], 0 ≤ coin.amount :=
      fun coin hcoin => hfee coin (hperm.mem_iff.mp hcoin)
    rcases (leastPriority_iff hgas hfee' (by simp)).mp (h _ hperm) with hno | hsmall
    · exact Or.inl (fun coin hcoin => hno coin (hperm.mem_iff.mpr hcoin))
    · rw [List.getLast_append_singleton] at hsmall
      exact absurd hge (not_le.mpr hsmall)

end

/-- For every fee that is not empty and not negative, and every positive gas limit: the
    priority is the least gas price of the coins exactly when none of them is below the
    limit or the last one is; and it is so in every order, and adding one of the coins did not
    raise it, exactly when none of them or all of them are below the limit. -/
theorem priority_iff (gas : ℤ) (hgas : 0 < gas) (fee : List Coin) (hne : fee ≠ [])
    (hfee : ∀ coin ∈ fee, 0 ≤ coin.amount) :
    (LeastPriority fee gas ↔
      (∀ coin ∈ fee, gas ≤ coin.amount) ∨ (fee.getLast hne).amount < gas) ∧
    (TruePriority fee gas ↔
      (∀ coin ∈ fee, gas ≤ coin.amount) ∨ ∀ coin ∈ fee, coin.amount < gas) := by
  refine ⟨leastPriority_iff hgas hfee hne,
    fun htrue => alike_of_every_order hgas hfee hne htrue.least, fun halike => ⟨?_, ?_⟩⟩
  · intro fee' hperm
    have hne' : fee' ≠ [] := fun heq => hne (List.nil_perm.mp (heq ▸ hperm))
    have hfee' : ∀ coin ∈ fee', 0 ≤ coin.amount :=
      fun coin hcoin => hfee coin (hperm.mem_iff.mp hcoin)
    refine leastPriority_of_alike hgas hfee' hne' ?_
    simpa only [hperm.mem_iff] using halike
  · intro coin before hbefore hperm p p' hp hp'
    have hsub : ∀ c ∈ before, c ∈ fee :=
      fun c hc => hperm.mem_iff.mp (List.mem_cons_of_mem _ hc)
    -- the fee before has coins on the same side of the limit
    have hleast := leastPriority_of_alike hgas (fun c hc => hfee c (hsub c hc)) hbefore
      (halike.imp (fun h c hc => h c (hsub c hc)) (fun h c hc => h c (hsub c hc)))
    obtain ⟨q, hq, ⟨c, hc, hcq⟩, _⟩ := hleast
    obtain ⟨q', hq', _, hlower⟩ := leastPriority_of_alike hgas hfee hne halike
    rw [hp] at hq
    rw [hp'] at hq'
    rw [Option.some.inj hq, Option.some.inj hq']
    exact hlower ⟨c, hsub c hc, hcq⟩

/-- Ten and twenty for each unit of gas. -/
theorem priority_two_prices :
    TruePriority [⟨"uluna", 1000⟩, ⟨"uusd", 2000⟩] 100 := by
  have hiff := (priority_iff 100 (by decide) [⟨"uluna", 1000⟩, ⟨"uusd", 2000⟩] (by decide)
    (by decide)).2
  exact hiff.mpr (Or.inl (by decide))

/-- Five units of Luna pay for no gas.  With a second coin the priority rises from zero to
    ten, which is not the least price. -/
theorem priority_raised :
    getTxPriority [⟨"uluna", 5⟩] 100 = some 0 ∧
      getTxPriority [⟨"uluna", 5⟩, ⟨"uusd", 1000⟩] 100 = some 10 ∧
      getTxPriority [⟨"uusd", 1000⟩, ⟨"uluna", 5⟩] 100 = some 0 ∧
      ¬ IsLeast (gasPrices 100 [⟨"uluna", 5⟩, ⟨"uusd", 1000⟩]) 10 := by
  refine ⟨by decide, by decide, by decide, ?_⟩
  intro hleast
  have hle : (10 : ℤ) ≤ 0 := hleast.2 ⟨⟨"uluna", 5⟩, List.mem_cons_self, by decide⟩
  omega

end TerraClassic.Ante
