import Mathlib.Algebra.BigOperators.Group.List.Basic
import Mathlib.Algebra.Order.Ring.Int
import Mathlib.Data.Int.Order.Basic
import Mathlib.Tactic.Linarith
import Mathlib.Tactic.Ring

/-! # Dividing an amount by weights, with rounding

    Each of a list of weights gets the share `w * unit / total` of `unit`,
    truncated.  With `total` the sum of the weights the shares add up to at most
    `unit` (`sum_share_le`); with a smaller total they may not, and
    `le_mul_sum_share` says by how much they can fall short of the exact value.

    A payout multiplies an amount by a share, drops the digits of the unit with
    some rounding that is at most half a unit too high, and truncates to whole
    units.  `sum_payout_le`: the payouts stay within the budget, as the excess of
    fewer than two units' worth of roundings is truncated away.
-/

namespace Apportion

/-- The share of a weight. -/
def share (unit total w : ℤ) : ℤ := w * unit / total

theorem mul_sum_share_le {unit total : ℤ} (htotal : 0 < total) (ws : List ℤ) :
    total * (ws.map (share unit total)).sum ≤ ws.sum * unit := by
  induction ws with
  | nil => simp
  | cons w rest ih =>
    have hw : total * (w * unit / total) ≤ w * unit := Int.mul_ediv_self_le htotal.ne'
    simp only [List.map_cons, List.sum_cons, share] at ih ⊢
    linarith

/-- The shares of all weights add up to no more than the unit. -/
theorem sum_share_le {unit total : ℤ} (htotal : 0 < total) {ws : List ℤ} (hsum : ws.sum = total) :
    (ws.map (share unit total)).sum ≤ unit := by
  have h : total * (ws.map (share unit total)).sum ≤ ws.sum * unit :=
    mul_sum_share_le htotal ws
  rw [hsum] at h
  exact le_of_mul_le_mul_left h htotal

/-- Truncation takes less than one from each share. -/
theorem le_mul_sum_share {unit total : ℤ} (htotal : 0 < total) (ws : List ℤ) :
    ws.sum * unit ≤ total * (ws.map (share unit total)).sum + ws.length * total := by
  induction ws with
  | nil => simp
  | cons w rest ih =>
    have hw : w * unit < total * (w * unit / total) + total := Int.lt_mul_ediv_self_add htotal
    simp only [List.map_cons, List.sum_cons, List.length_cons, share] at ih ⊢
    push_cast
    linarith

section payout
variable {unit : ℤ} {round : ℤ → ℤ}

/-- The rounded products of an amount with the shares. -/
theorem mul_sum_round_le (hround : ∀ x, 2 * (unit * round x) ≤ 2 * x + unit) (amount : ℤ)
    (qs : List ℤ) :
    2 * (unit * (qs.map (fun q => round (amount * q))).sum) ≤
      2 * (amount * qs.sum) + qs.length * unit := by
  induction qs with
  | nil => simp
  | cons q rest ih =>
    have hq := hround (amount * q)
    simp only [List.map_cons, List.sum_cons, List.length_cons] at ih ⊢
    push_cast
    linarith

theorem mul_sum_ediv_le (hunit : 0 < unit) (xs : List ℤ) :
    unit * (xs.map (fun x => x / unit)).sum ≤ xs.sum := by
  induction xs with
  | nil => simp
  | cons x rest ih =>
    have hx : unit * (x / unit) ≤ x := Int.mul_ediv_self_le hunit.ne'
    simp only [List.map_cons, List.sum_cons] at ih ⊢
    linarith

/-- Payouts of whole units stay within the budget. -/
theorem sum_payout_le (hunit : 0 < unit) (hround : ∀ x, 2 * (unit * round x) ≤ 2 * x + unit)
    {amount budget : ℤ} (hamount : 0 ≤ amount) (hbudget : amount ≤ budget * unit) {qs : List ℤ}
    (hqs : qs.sum ≤ unit) (hlength : (qs.length : ℤ) < 2 * unit) :
    (qs.map (fun q => round (amount * q) / unit)).sum ≤ budget := by
  have hrounded := mul_sum_round_le hround amount qs
  have htruncated := mul_sum_ediv_le hunit (qs.map (fun q => round (amount * q)))
  rw [List.map_map] at htruncated
  have hproduct : amount * qs.sum ≤ amount * unit := mul_le_mul_of_nonneg_left hqs hamount
  set paid := (qs.map (fun q => round (amount * q) / unit)).sum with hpaid
  have hpaid' : (qs.map ((fun x => x / unit) ∘ fun q => round (amount * q))).sum = paid := rfl
  rw [hpaid'] at htruncated
  -- twice the payout, in units of `unit * unit`, is below twice the budget plus two
  have hscaled : unit * (2 * (unit * paid)) < unit * (2 * (budget * unit) + 2 * unit) := by
    have hmul := mul_le_mul_of_nonneg_left htruncated hunit.le
    have hcount : (qs.length : ℤ) * unit < 2 * unit * unit := mul_lt_mul_of_pos_right hlength hunit
    have hbound : amount * unit ≤ budget * unit * unit :=
      mul_le_mul_of_nonneg_right hbudget hunit.le
    nlinarith
  have hlt := lt_of_mul_lt_mul_left hscaled hunit.le
  have hlt : unit * paid < unit * (budget + 1) := by linarith
  exact Int.lt_add_one_iff.mp (lt_of_mul_lt_mul_left hlt hunit.le)

end payout

end Apportion
