import Mathlib.Algebra.Order.Field.Basic
import Mathlib.Tactic.FieldSimp
import Mathlib.Tactic.Linarith
import Mathlib.Tactic.Positivity
import Mathlib.Tactic.Ring

/-! # A constant-product pool with rounded arithmetic

    Two virtual pools with product `c`: an offer `o` to the pool `L` leaves
    `c / (L + o)` in the other one.  The product, the pool `L` and the spread
    are all known up to a rounding error of one unit only.

    `remainder_le` bounds from below what the exact rule leaves, by the sizes
    that do not depend on a rounding; `payout_lt_pool` says when a payout that
    follows a rounded spread stays below the pool.

    In exact arithmetic, with a share `r` of the offer as a second bound on what
    is paid, `quote` is the payment; `quote_add_le` says that two offers one after
    the other are paid at most what one offer of their sum is paid, and only asks
    of the pool between them that it has not grown by more than the first offer.
-/

namespace ConstantProduct

variable {F : Type*} [Field F] [LinearOrder F] [IsStrictOrderedRing F]

/-- `β` bounds the product `c` from below, and `L` is `c / T` up to one unit. -/
theorem remainder_le {β c T L o : F} (hβ : 0 < β) (hc : β ≤ c) (hT : 0 < T) (hL : 0 ≤ L)
    (hquo : T * L ≤ c + T) (ho : 0 < o) :
    β * T / (β + (o + 1) * T) ≤ c / (L + o) := by
  have hden : 0 < β + (o + 1) * T := by positivity
  have hpool : 0 < L + o := by linarith
  rw [div_le_div_iff₀ hden hpool]
  -- both sides divided by the product: `T * (L + o) ≤ c + (o + 1) * T`
  have hsum : T * (L + o) ≤ c + (o + 1) * T := by nlinarith
  calc β * T * (L + o)
      = β * (T * (L + o)) := by ring
    _ ≤ β * (c + (o + 1) * T) := mul_le_mul_of_nonneg_left hsum hβ.le
    _ = c * β + β * ((o + 1) * T) := by ring
    _ ≤ c * β + c * ((o + 1) * T) := by
        have : 0 ≤ (o + 1) * T := by positivity
        linarith [mul_le_mul_of_nonneg_right hc this]
    _ = c * (β + (o + 1) * T) := by ring

/-- A trader is paid the share `ρ` of the offer, up to `e`.  The share follows
    from a spread that is off by `d` on the whole offer, and the new pool `q`
    is off by one unit from `rest`. -/
theorem payout_lt_pool {T q o ρ d e rest payout : F} (hpay : payout ≤ ρ * o + e)
    (hshare : ρ ≤ 1) (ho : 0 ≤ o) (hspread : ρ * o ≤ T - q + d) (hquo : rest - 1 ≤ q)
    (hsafe : o + e < T ∨ d + 1 + e < rest) : payout < T := by
  rcases hsafe with hsmall | hrest
  · have : ρ * o ≤ o := mul_le_of_le_one_left ho hshare
    linarith
  · linarith

/-! ### Splitting an offer -/

/-- What an offer `x` to the pool `P` is paid: what the other pool `c / P` loses, but at most
    the share `r` of the offer. -/
def quote (c r P x : F) : F := min (r * x) (c / P - c / (P + x))

/-- An offer `x` to the pool `P` was paid `n`, and the pool is now `P'`. -/
structure Fill (c r P x n P' : F) : Prop where
  pool_pos : 0 < P'
  pool_le : P' ≤ P + x
  share : n ≤ r * x
  paid : n ≤ c / P - c / P'

variable {c r P x n P' y : F}

omit [IsStrictOrderedRing F] in
theorem quote_zero (c r P : F) : quote c r P 0 = 0 := by
  unfold quote
  rw [mul_zero, add_zero, sub_self, min_self]

theorem quote_pos (hc : 0 < c) (hr : 0 < r) (hP : 0 < P) (hx : 0 < x) : 0 < quote c r P x := by
  apply lt_min (mul_pos hr hx)
  rw [sub_pos]
  exact div_lt_div_of_pos_left hc hP (by linarith)

theorem quote_nonneg (hc : 0 ≤ c) (hr : 0 ≤ r) (hP : 0 < P) (hx : 0 ≤ x) : 0 ≤ quote c r P x := by
  apply le_min (mul_nonneg hr hx)
  rw [sub_nonneg]
  exact div_le_div_of_nonneg_left hc hP (by linarith)

/-- A payment of the quote leaves the pool asked from with at least the constant product. -/
theorem le_sub_quote (c r P x : F) : c / (P + x) ≤ c / P - quote c r P x := by
  have := min_le_right (r * x) (c / P - c / (P + x))
  unfold quote
  linarith

/-- Two offers are paid at most what their sum is paid at once. -/
theorem quote_add_le (hc : 0 ≤ c) (hy : 0 ≤ y) (h : Fill c r P x n P') :
    n + quote c r P' y ≤ quote c r P (x + y) := by
  unfold quote
  apply le_min
  · have := min_le_left (r * y) (c / P' - c / (P' + y))
    linarith [h.share, mul_add r x y]
  · have hsecond := min_le_right (r * y) (c / P' - c / (P' + y))
    -- the pool in between is no larger than if the first offer had filled it
    have hpools : c / (P + (x + y)) ≤ c / (P' + y) :=
      div_le_div_of_nonneg_left hc (by linarith [h.pool_pos]) (by linarith [h.pool_le])
    linarith [h.paid]

/-- An offer that is refused is a fill that pays nothing. -/
theorem Fill.refused (hr : 0 ≤ r) (hP : 0 < P) (hx : 0 ≤ x) : Fill c r P x 0 P where
  pool_pos := hP
  pool_le := by linarith
  share := mul_nonneg hr hx
  paid := by rw [sub_self]

/-- The quote is paid, and the pool offered to gets the whole offer. -/
theorem Fill.of_offer (hP : 0 < P) (hx : 0 ≤ x) : Fill c r P x (quote c r P x) (P + x) where
  pool_pos := by linarith
  pool_le := le_rfl
  share := min_le_left _ _
  paid := min_le_right _ _

/-- The quote is paid, and taken from the pool asked from. -/
theorem Fill.of_payment (hc : 0 < c) (hP : 0 < P) (hx : 0 ≤ x) :
    Fill c r P x (quote c r P x) (c / (c / P - quote c r P x)) := by
  have hleft := le_sub_quote c r P x
  have hsum : 0 < P + x := by linarith
  have hpos : 0 < c / P - quote c r P x := lt_of_lt_of_le (by positivity) hleft
  refine ⟨by positivity, ?_, min_le_left _ _, ?_⟩
  · rw [div_le_iff₀ hpos]
    rw [div_le_iff₀ hsum] at hleft
    linarith [mul_comm (P + x) (c / P - quote c r P x)]
  · rw [div_div_cancel₀ hc.ne']
    linarith

end ConstantProduct
