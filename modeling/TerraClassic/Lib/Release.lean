import Mathlib.Algebra.BigOperators.Group.List.Basic
import Mathlib.Algebra.Order.BigOperators.Group.List
import Mathlib.Algebra.Order.Group.Int
import Mathlib.Algebra.Order.Ring.Int
import Mathlib.Tactic.Linarith

/-! # Linear release of an amount

    A piece releases `total` between two times: nothing before the start, everything from
    the finish on, and between them the share of the time that has passed, truncated.
    Start and finish may be the same time.

    Pieces of any position are added up.  The sum lies between zero and the total, never
    decreases, and is the total once every piece is finished.
-/

namespace Release

/-- An amount that is released between two times. -/
structure Piece where
  start : ℤ
  finish : ℤ
  total : ℤ

namespace Piece

/-- The finish is not before the start, and the amount is not negative. -/
structure Valid (p : Piece) : Prop where
  order : p.start ≤ p.finish
  total : 0 ≤ p.total

/-- The amount released by a time. -/
def released (p : Piece) (t : ℤ) : ℤ :=
  if t < p.start then 0
  else if t < p.finish then p.total * (t - p.start) / (p.finish - p.start)
  else p.total

variable {p : Piece}

theorem released_nonneg (h : p.Valid) (t : ℤ) : 0 ≤ p.released t := by
  unfold released
  split
  · exact le_rfl
  · split
    · exact Int.ediv_nonneg (mul_nonneg h.total (by omega)) (by omega)
    · exact h.total

theorem released_le_total (h : p.Valid) (t : ℤ) : p.released t ≤ p.total := by
  unfold released
  split
  · exact h.total
  · split
    · next hstart hfinish =>
      apply Int.ediv_le_of_le_mul (by omega)
      exact mul_le_mul_of_nonneg_left (by omega) h.total
    · exact le_rfl

theorem released_of_finish_le (h : p.Valid) {t : ℤ} (ht : p.finish ≤ t) :
    p.released t = p.total := by
  have horder := h.order
  unfold released
  rw [if_neg (by omega), if_neg (by omega)]

theorem released_mono (h : p.Valid) {t₁ t₂ : ℤ} (ht : t₁ ≤ t₂) :
    p.released t₁ ≤ p.released t₂ := by
  by_cases hstart : t₁ < p.start
  · have hzero : p.released t₁ = 0 := if_pos hstart
    rw [hzero]
    exact released_nonneg h t₂
  · by_cases hfinish : t₂ < p.finish
    · -- both times lie on the slope
      unfold released
      rw [if_neg hstart, if_neg (by omega : ¬ t₂ < p.start),
        if_pos (by omega : t₁ < p.finish), if_pos hfinish]
      apply Int.ediv_le_ediv (by omega)
      exact mul_le_mul_of_nonneg_left (by omega) h.total
    · rw [released_of_finish_le h (by omega : p.finish ≤ t₂)]
      exact released_le_total h t₁

end Piece

/-! ### Several pieces -/

/-- The amount that all pieces together have released by a time. -/
def released (ps : List Piece) (t : ℤ) : ℤ := (ps.map (fun p => p.released t)).sum

/-- The amount that all pieces together release. -/
def total (ps : List Piece) : ℤ := (ps.map Piece.total).sum

variable {ps : List Piece}

theorem released_nonneg (h : ∀ p ∈ ps, p.Valid) (t : ℤ) : 0 ≤ released ps t := by
  apply List.sum_nonneg
  intro x hx
  obtain ⟨p, hp, rfl⟩ := List.mem_map.mp hx
  exact Piece.released_nonneg (h p hp) t

theorem released_le_total (h : ∀ p ∈ ps, p.Valid) (t : ℤ) : released ps t ≤ total ps :=
  List.sum_le_sum (fun p hp => Piece.released_le_total (h p hp) t)

theorem released_mono (h : ∀ p ∈ ps, p.Valid) {t₁ t₂ : ℤ} (ht : t₁ ≤ t₂) :
    released ps t₁ ≤ released ps t₂ :=
  List.sum_le_sum (fun p hp => Piece.released_mono (h p hp) ht)

theorem released_of_finish_le (h : ∀ p ∈ ps, p.Valid) {t : ℤ} (ht : ∀ p ∈ ps, p.finish ≤ t) :
    released ps t = total ps := by
  unfold released total
  congr 1
  exact List.map_congr_left (fun p hp => Piece.released_of_finish_le (h p hp) (ht p hp))

/-- No piece is larger than the whole. -/
theorem le_total (h : ∀ p ∈ ps, p.Valid) {p : Piece} (hp : p ∈ ps) : p.total ≤ total ps := by
  apply List.single_le_sum
  · intro x hx
    obtain ⟨q, hq, rfl⟩ := List.mem_map.mp hx
    exact (h q hq).total
  · exact List.mem_map_of_mem hp

end Release
