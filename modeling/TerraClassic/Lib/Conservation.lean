import Mathlib.Algebra.BigOperators.Finprod
import Mathlib.Algebra.Order.BigOperators.Group.Finset

/-! # Holdings that add up

    Finitely many of the accounts `A` hold something, and together they hold `total`.

    * `Backs.credit`, `Backs.debit`, `Backs.move`: what a payment does to the total.
    * `Backs.le`: holdings that are not negative are parts of the total.
-/

namespace TerraClassic.Conservation

open Function (support)

variable {A M : Type}

section Group

variable [AddCommGroup M]

/-- Finitely many accounts hold something, `total` in all. -/
structure Backs (holdings : A → M) (total : M) : Prop where
  finite : (support holdings).Finite
  sum : ∑ᶠ a, holdings a = total

theorem Backs.add {f g : A → M} {m n : M} (hf : Backs f m) (hg : Backs g n) :
    Backs (fun a => f a + g a) (m + n) := by
  constructor
  · exact (hf.finite.union hg.finite).subset (Function.support_add f g)
  · rw [finsum_add_distrib hf.finite hg.finite, hf.sum, hg.sum]

theorem Backs.neg {f : A → M} {m : M} (hf : Backs f m) : Backs (fun a => -f a) (-m) := by
  constructor
  · rw [Function.support_fun_neg]
    exact hf.finite
  · rw [finsum_neg_distrib, hf.sum]

variable [DecidableEq A] {holdings : A → M} {total : M}

/-- An amount in one account. -/
def inAccount (x : A) (amount : M) (a : A) : M := if a = x then amount else 0

theorem backs_inAccount (x : A) (amount : M) : Backs (inAccount x amount) amount := by
  constructor
  · refine (Set.finite_singleton x).subset ?_
    intro a ha
    by_contra hne
    exact ha (if_neg hne)
  · rw [finsum_eq_single (inAccount x amount) x (fun a ha => if_neg ha)]
    exact if_pos rfl

/-- An amount is credited to one account. -/
theorem Backs.credit (h : Backs holdings total) (x : A) (amount : M) :
    Backs (fun a => holdings a + if a = x then amount else 0) (total + amount) :=
  h.add (backs_inAccount x amount)

/-- An amount is debited to one account. -/
theorem Backs.debit (h : Backs holdings total) (x : A) (amount : M) :
    Backs (fun a => holdings a - if a = x then amount else 0) (total - amount) := by
  simp only [sub_eq_add_neg]
  exact h.add (backs_inAccount x amount).neg

/-- A payment from one account to another, or to itself. -/
theorem Backs.move (h : Backs holdings total) (x y : A) (amount : M) :
    Backs (fun a => holdings a - (if a = x then amount else 0) + (if a = y then amount else 0))
      total := by
  have hpaid := (h.debit x amount).credit y amount
  rwa [sub_add_cancel] at hpaid

end Group

section Ordered

variable [AddCommGroup M] [PartialOrder M] [IsOrderedAddMonoid M] {holdings : A → M} {total : M}

/-- What one account holds is a part of the total. -/
theorem Backs.le (h : Backs holdings total) (hnonneg : ∀ a, 0 ≤ holdings a) (x : A) :
    holdings x ≤ total := by
  classical
  rw [← h.sum, finsum_eq_sum_of_support_subset (s := insert x h.finite.toFinset) holdings
    (by simp)]
  exact Finset.single_le_sum (fun a _ => hnonneg a) (Finset.mem_insert_self x _)

end Ordered

end TerraClassic.Conservation
