import Mathlib.Algebra.Order.Ring.Int
import Mathlib.Data.Int.Order.Basic
import Mathlib.Tactic.Linarith
import Mathlib.Tactic.Ring

/-! # Rounding to a scale, half to even

    A fixed-point number with scale `s` is an integer `x` that stands for
    `x / s`.  Products and quotients of such numbers carry extra digits,
    which are dropped by `roundHalfEven s`: to the nearest integer, and a
    tie to the even one, the same on both sides of zero.

    The lemmas are the ones an error bound needs: the result is within half
    a unit (`two_mul_roundHalfEven_le`, `le_two_mul_roundHalfEven`), it is
    exact on multiples of `s`, it is monotone, and it is zero only within
    half a unit of zero.  `roundHalfEven_eq_iff` says which integer it is.

    `float64` rounds a natural number to the 53 significant bits of a floating-point
    number; up to `2^53` it changes nothing.
-/

namespace Rounding

/-- Round `n / s` to the nearest natural number, ties to even. -/
def roundNat (s n : ℕ) : ℕ :=
  if 2 * (n % s) < s then n / s
  else if s < 2 * (n % s) then n / s + 1
  else if n / s % 2 = 0 then n / s
  else n / s + 1

/-- Round `x / s` to the nearest integer, ties to even. -/
def roundHalfEven (s : ℕ) (x : ℤ) : ℤ :=
  if x < 0 then -(roundNat s x.natAbs : ℤ) else (roundNat s x.natAbs : ℤ)

/-! ### Natural numbers -/

theorem roundNat_bounds (s n : ℕ) (hs : 0 < s) :
    2 * (s * roundNat s n) ≤ 2 * n + s ∧ 2 * n ≤ 2 * (s * roundNat s n) + s := by
  have hdiv := Nat.div_add_mod n s
  have hmod := Nat.mod_lt n hs
  unfold roundNat
  generalize n / s = q at *
  generalize n % s = r at *
  have hsucc : s * (q + 1) = s * q + s := Nat.mul_succ s q
  split
  · omega
  · split
    · rw [hsucc]; omega
    · split
      · omega
      · rw [hsucc]; omega

theorem roundNat_mul (s k : ℕ) (hs : 0 < s) : roundNat s (s * k) = k := by
  unfold roundNat
  rw [Nat.mul_mod_right, Nat.mul_div_cancel_left k hs]
  simp [hs]

theorem roundNat_mono (s : ℕ) {a b : ℕ} (h : a ≤ b) :
    roundNat s a ≤ roundNat s b := by
  have hq : a / s ≤ b / s := Nat.div_le_div_right h
  rcases Nat.eq_or_lt_of_le hq with heq | hlt
  · -- equal quotients: the remainders are ordered
    have ha := Nat.div_add_mod a s
    have hb := Nat.div_add_mod b s
    have hr : a % s ≤ b % s := by rw [heq] at ha; omega
    unfold roundNat
    rw [heq]
    split_ifs <;> omega
  · -- a larger quotient already covers the carry
    have hle : roundNat s a ≤ a / s + 1 := by
      unfold roundNat
      split_ifs <;> omega
    have hge : b / s ≤ roundNat s b := by
      unfold roundNat
      split_ifs <;> omega
    omega

/-- A result half a unit away from the value is even. -/
theorem roundNat_even_of_tie (s n : ℕ) (hs : 0 < s)
    (h : 2 * n = 2 * (s * roundNat s n) + s ∨ 2 * (s * roundNat s n) = 2 * n + s) :
    roundNat s n % 2 = 0 := by
  have hdiv := Nat.div_add_mod n s
  have hmod := Nat.mod_lt n hs
  unfold roundNat at h ⊢
  generalize n / s = q at *
  generalize n % s = r at *
  have hsucc : s * (q + 1) = s * q + s := Nat.mul_succ s q
  split_ifs at h ⊢ with hlow hhigh heven
  · omega
  · rw [hsucc] at h
    omega
  · exact heven
  · omega

/-! ### Integers -/

theorem roundHalfEven_of_nonneg (s : ℕ) {x : ℤ} (hx : 0 ≤ x) :
    roundHalfEven s x = (roundNat s x.natAbs : ℤ) := by
  unfold roundHalfEven
  rw [if_neg (not_lt.mpr hx)]

theorem roundHalfEven_neg (s : ℕ) (x : ℤ) :
    roundHalfEven s (-x) = -roundHalfEven s x := by
  unfold roundHalfEven
  rw [Int.natAbs_neg]
  rcases lt_trichotomy x 0 with h | h | h
  · rw [if_neg (by omega), if_pos h, neg_neg]
  · subst h
    simp [roundNat]
  · rw [if_pos (by omega), if_neg (by omega)]

/-- Rounding never gains more than half a unit. -/
theorem two_mul_roundHalfEven_le (s : ℕ) (hs : 0 < s) (x : ℤ) :
    2 * (s * roundHalfEven s x) ≤ 2 * x + s := by
  have hb := roundNat_bounds s x.natAbs hs
  zify at hb
  unfold roundHalfEven
  split
  · next h => rw [abs_of_neg h] at hb; linarith [hb.1, hb.2]
  · next h => rw [abs_of_nonneg (not_lt.mp h)] at hb; linarith [hb.1, hb.2]

/-- Rounding never loses more than half a unit. -/
theorem le_two_mul_roundHalfEven (s : ℕ) (hs : 0 < s) (x : ℤ) :
    2 * x ≤ 2 * (s * roundHalfEven s x) + s := by
  have h := two_mul_roundHalfEven_le s hs (-x)
  rw [roundHalfEven_neg] at h
  linarith

theorem roundHalfEven_mul (s : ℕ) (hs : 0 < s) (k : ℤ) : roundHalfEven s (s * k) = k := by
  have hnonneg : ∀ n : ℕ, roundHalfEven s (s * n) = n := by
    intro n
    rw [roundHalfEven_of_nonneg s (by positivity)]
    have habs : ((s : ℤ) * n).natAbs = s * n := by rw [Int.natAbs_mul]; simp
    rw [habs, roundNat_mul s n hs]
  rcases Int.eq_nat_or_neg k with ⟨n, rfl | rfl⟩
  · exact hnonneg n
  · rw [mul_neg, roundHalfEven_neg, hnonneg n]

theorem roundHalfEven_even_of_tie (s : ℕ) (hs : 0 < s) (x : ℤ)
    (h : 2 * |x - s * roundHalfEven s x| = s) : Even (roundHalfEven s x) := by
  have hnonneg : ∀ n : ℕ, 2 * |(n : ℤ) - s * roundHalfEven s n| = s →
      Even (roundHalfEven s n) := by
    intro n hn
    rw [roundHalfEven_of_nonneg s (Int.natCast_nonneg n), Int.natAbs_natCast] at hn ⊢
    have htie : 2 * n = 2 * (s * roundNat s n) + s ∨ 2 * (s * roundNat s n) = 2 * n + s := by
      zify
      rcases abs_cases ((n : ℤ) - s * roundNat s n) with ⟨habs, _⟩ | ⟨habs, _⟩
      · left
        linarith
      · right
        linarith
    exact Int.even_iff.mpr (by exact_mod_cast roundNat_even_of_tie s n hs htie)
  rcases Int.eq_nat_or_neg x with ⟨n, rfl | rfl⟩
  · exact hnonneg n h
  · rw [roundHalfEven_neg] at h ⊢
    refine (hnonneg n ?_).neg
    rw [abs_sub_comm]
    convert h using 3
    ring

/-- `k` is within half a unit of `x / s`, and even if it is exactly half a unit away. -/
def Nearest (s : ℕ) (x k : ℤ) : Prop := 2 * |x - s * k| < s ∨ 2 * |x - s * k| = s ∧ Even k

theorem nearest_roundHalfEven (s : ℕ) (hs : 0 < s) (x : ℤ) : Nearest s x (roundHalfEven s x) := by
  have hle : 2 * |x - s * roundHalfEven s x| ≤ s := by
    have hupper := two_mul_roundHalfEven_le s hs x
    have hlower := le_two_mul_roundHalfEven s hs x
    rcases abs_cases (x - s * roundHalfEven s x) with ⟨habs, _⟩ | ⟨habs, _⟩
    · linarith
    · linarith
  rcases hle.lt_or_eq with hlt | heq
  · exact .inl hlt
  · exact .inr ⟨heq, roundHalfEven_even_of_tie s hs x heq⟩

/-- Two neighbours can be equally near, but only one of them is even. -/
theorem Nearest.not_lt {s : ℕ} (hs : 0 < s) {x k l : ℤ} (hk : Nearest s x k)
    (hl : Nearest s x l) : ¬ k < l := by
  intro hlt
  have hle : ∀ {m}, Nearest s x m → 2 * |x - s * m| ≤ s := by
    rintro m (h | ⟨h, _⟩)
    · exact h.le
    · exact h.le
  have hkb := hle hk
  have hlb := hle hl
  have hs' : (0 : ℤ) < s := by exact_mod_cast hs
  have hk' := le_abs_self (x - s * k)
  have hl' := neg_abs_le (x - s * l)
  obtain rfl : l = k + 1 := by
    have hmul : (s : ℤ) * l ≤ s * (k + 1) := by linarith
    have := le_of_mul_le_mul_left hmul hs'
    omega
  have hsucc : (s : ℤ) * (k + 1) = s * k + s := by ring
  -- both are half a unit away, and both are even
  rcases hk with hk | ⟨_, hkeven⟩
  · linarith
  · rcases hl with hl | ⟨_, hleven⟩
    · linarith
    · exact absurd (hkeven.add_one) (Int.not_odd_iff_even.mpr hleven)

theorem roundHalfEven_eq_iff (s : ℕ) (hs : 0 < s) {x k : ℤ} :
    roundHalfEven s x = k ↔ Nearest s x k := by
  constructor
  · rintro rfl
    exact nearest_roundHalfEven s hs x
  · intro h
    have hround := nearest_roundHalfEven s hs x
    exact le_antisymm (not_lt.mp (h.not_lt hs hround)) (not_lt.mp (hround.not_lt hs h))

theorem roundHalfEven_nonneg (s : ℕ) {x : ℤ} (hx : 0 ≤ x) : 0 ≤ roundHalfEven s x := by
  rw [roundHalfEven_of_nonneg s hx]
  exact Int.natCast_nonneg _

theorem roundHalfEven_mono (s : ℕ) {x y : ℤ} (h : x ≤ y) :
    roundHalfEven s x ≤ roundHalfEven s y := by
  have hpos : ∀ {a b : ℤ}, 0 ≤ a → a ≤ b → roundHalfEven s a ≤ roundHalfEven s b := by
    intro a b ha hab
    rw [roundHalfEven_of_nonneg s ha, roundHalfEven_of_nonneg s (le_trans ha hab)]
    exact_mod_cast roundNat_mono s (by omega)
  rcases le_or_gt 0 x with hx | hx
  · exact hpos hx h
  · rcases le_or_gt 0 y with hy | hy
    · have h0 := roundHalfEven_nonneg s (show 0 ≤ -x by omega)
      rw [roundHalfEven_neg] at h0
      have h1 := roundHalfEven_nonneg s hy
      omega
    · have := hpos (show 0 ≤ -y by omega) (show -y ≤ -x by omega)
      rw [roundHalfEven_neg, roundHalfEven_neg] at this
      omega

/-- A value at most `k` units rounds to at most `k`. -/
theorem roundHalfEven_le_of_le_mul (s : ℕ) (hs : 0 < s) {x k : ℤ} (h : x ≤ s * k) :
    roundHalfEven s x ≤ k := by
  have := roundHalfEven_mono s h
  rwa [roundHalfEven_mul s hs] at this

/-- A value rounds to at most `k` when it is below `k` and a half units, or at it and `k` is
    even. -/
theorem roundHalfEven_le_iff (s : ℕ) (hs : 0 < s) {x k : ℤ} :
    roundHalfEven s x ≤ k ↔
      2 * x < s * (2 * k + 1) ∨ 2 * x = s * (2 * k + 1) ∧ Even k := by
  have hs' : (0 : ℤ) < s := by exact_mod_cast hs
  have hnear := nearest_roundHalfEven s hs x
  have hupper := le_two_mul_roundHalfEven s hs x
  have hlower := two_mul_roundHalfEven_le s hs x
  generalize roundHalfEven s x = r at *
  constructor
  · intro hle
    have hmul := mul_le_mul_of_nonneg_left hle hs'.le
    rcases (show 2 * x ≤ s * (2 * k + 1) by linarith).lt_or_eq with hlt | heq
    · exact Or.inl hlt
    · -- at the tie the nearest integer is `k` itself
      have hrk : r = k := by
        have : (s : ℤ) * k ≤ s * r := by linarith
        exact le_antisymm hle (le_of_mul_le_mul_left this hs')
      have habs : x - s * r ≤ |x - s * r| := le_abs_self _
      rcases hnear with hlt | ⟨_, heven⟩
      · rw [hrk] at hlt habs
        linarith
      · exact Or.inr ⟨heq, hrk ▸ heven⟩
  · intro h
    by_contra hnot
    have hsucc : k + 1 ≤ r := by omega
    have hmul := mul_le_mul_of_nonneg_left hsucc hs'.le
    rcases h with hlt | ⟨heq, heven⟩
    · linarith
    · have hrk : r = k + 1 := by
        have : (s : ℤ) * r ≤ s * (k + 1) := by linarith
        exact le_antisymm (le_of_mul_le_mul_left this hs') hsucc
      have habs : -(x - s * r) ≤ |x - s * r| := neg_le_abs _
      rcases hnear with hlt | ⟨_, hodd⟩
      · rw [hrk] at hlt habs
        linarith
      · rw [hrk] at hodd
        exact absurd heven.add_one (Int.not_odd_iff_even.mpr hodd)

/-- A non-negative value rounds to zero exactly when it is at most half a unit:
    the tie at one half goes to the even neighbour, which is zero. -/
theorem roundHalfEven_eq_zero_iff (s : ℕ) (hs : 0 < s) {x : ℤ} (hx : 0 ≤ x) :
    roundHalfEven s x = 0 ↔ 2 * x ≤ s := by
  constructor
  · intro h
    have := le_two_mul_roundHalfEven s hs x
    rw [h] at this
    linarith
  · intro h
    obtain ⟨n, rfl⟩ := Int.eq_ofNat_of_zero_le hx
    rw [roundHalfEven_of_nonneg s hx]
    have hn : 2 * n ≤ s := by omega
    have hlt : n < s := by omega
    simp only [Int.natAbs_natCast, Nat.cast_eq_zero]
    unfold roundNat
    rw [Nat.div_eq_of_lt hlt, Nat.mod_eq_of_lt hlt]
    split_ifs <;> omega

/-! ### Significant bits -/

/-- The `float64` nearest to `n`, ties to even. -/
def float64 (n : ℕ) : ℕ := 2 ^ (n.log2 - 52) * roundNat (2 ^ (n.log2 - 52)) n

theorem float64_of_lt {n : ℕ} (h : n < 2 ^ 53) : float64 n = n := by
  have hlog : n.log2 - 52 = 0 := by
    rcases Nat.eq_zero_or_pos n with rfl | hpos
    · rfl
    · have := (Nat.log2_lt hpos.ne').mpr h
      omega
  unfold float64
  rw [hlog, pow_zero, one_mul]
  have hone := roundNat_mul 1 n one_pos
  rwa [one_mul] at hone

/-- Rounding does not take a number below `2^53` that was not. -/
theorem le_float64 {n : ℕ} (h : 2 ^ 53 ≤ n) : 2 ^ 53 ≤ float64 n := by
  have hpos : n ≠ 0 := by omega
  have hlog : 53 ≤ n.log2 := (Nat.le_log2 hpos).mpr h
  have hscale : 2 ^ n.log2 = 2 ^ (n.log2 - 52) * 2 ^ 52 := by
    rw [← pow_add]
    congr 1
    omega
  -- the leading bit of `n` is a multiple of the last place, so it stays
  have hround : 2 ^ 52 ≤ roundNat (2 ^ (n.log2 - 52)) n := by
    have hmono := roundNat_mono (2 ^ (n.log2 - 52)) (Nat.log2_self_le hpos)
    rwa [hscale, roundNat_mul _ _ (by positivity)] at hmono
  calc 2 ^ 53 ≤ 2 ^ n.log2 := Nat.pow_le_pow_right (by norm_num) hlog
    _ = 2 ^ (n.log2 - 52) * 2 ^ 52 := hscale
    _ ≤ float64 n := Nat.mul_le_mul_left _ hround

end Rounding
