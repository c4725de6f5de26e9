import TerraClassic.Lib.Returns
import TerraClassic.Lib.Rounding
import Mathlib.Data.UInt
import Mathlib.Order.Lattice
import Mathlib.Tactic.NormNum
import Mathlib.Tactic.Positivity

/-! # `sdk.Dec` and the machine integers around it

    `sdk.Dec` is a fixed-point number with 18 decimals, kept as a big
    integer `i` that stands for `i / 10^18`.  `Add`, `Sub`, `Mul`, `MulInt`
    and `Quo` panic when the result needs more than 315 bits, and division
    panics on a zero divisor; a panic is `none`.

    `Mul` and `Quo` drop the extra digits with banker's rounding
    (`chopPrecisionAndRound`), `QuoInt64` and `TruncateInt` truncate
    towards zero.
-/

namespace TerraClassic

/-! ### Machine integers -/

/-- The `int64` with the same low 64 bits as `x`: Go's conversion to `int64`
    and the result of `int64` addition. -/
def toInt64 (x : ℤ) : ℤ := Int.bmod x (2 ^ 64)

/-- The `uint64` with the same low 64 bits as `x`. -/
def toUint64 (x : ℤ) : ℕ := (x % 2 ^ 64).toNat

@[simp] theorem toInt64_toInt64 (x : ℤ) : toInt64 (toInt64 x) = toInt64 x := by
  unfold toInt64
  exact Int.bmod_bmod

theorem toInt64_of_lt {x : ℤ} (h₀ : -2 ^ 63 ≤ x) (h₁ : x < 2 ^ 63) : toInt64 x = x := by
  unfold toInt64
  exact Int.bmod_eq_of_le (by norm_num; omega) (by norm_num; omega)

/-- One overflow takes `2^64` off. -/
theorem toInt64_of_ge {x : ℤ} (h₀ : 2 ^ 63 ≤ x) (h₁ : x < 2 ^ 64 + 2 ^ 63) :
    toInt64 x = x - 2 ^ 64 := by
  have hwrap : toInt64 x = toInt64 (x - 2 ^ 64) := (Int.sub_mul_bmod_self_left x (2 ^ 64) 1).symm
  rw [hwrap]
  exact toInt64_of_lt (by omega) (by omega)

theorem toInt64_lt (x : ℤ) : toInt64 x < 2 ^ 63 := by
  have := Int.bmod_lt (x := x) (m := 2 ^ 64) (by norm_num)
  unfold toInt64
  norm_num at this ⊢
  omega

/-- Reducing an operand first does not change an `int64` sum. -/
theorem toInt64_add_left (x y : ℤ) : toInt64 (toInt64 x + y) = toInt64 (x + y) := by
  unfold toInt64
  exact Int.bmod_add_bmod

/-- When an `int64` sum is its first part. -/
theorem toInt64_add_eq_left_iff {x y : ℤ} (hx : 0 ≤ x) :
    toInt64 (x + y) = x ↔ x < 2 ^ 63 ∧ 2 ^ 64 ∣ y := by
  constructor
  · intro h
    have hdvd : ((2 ^ 64 : ℕ) : ℤ) ∣ x + y - toInt64 (x + y) := Int.dvd_self_sub_bmod
    rw [h, add_sub_cancel_left] at hdvd
    exact ⟨h ▸ toInt64_lt (x + y), by exact_mod_cast hdvd⟩
  · rintro ⟨hlt, m, rfl⟩
    have hwrap : toInt64 (x + 2 ^ 64 * m) = toInt64 x := Int.add_mul_bmod_self_left x (2 ^ 64) m
    rw [hwrap]
    exact toInt64_of_lt (by omega) hlt

/-! ### Decimals -/

/-- `10^18`, the raw value of the decimal 1. -/
def decOne : ℕ := 10 ^ 18

/-- `maxDecBitLen`: the number of bits a checked operation may return. -/
def maxDecBitLen : ℕ := 315

/-- `big.Int.BitLen`. -/
def bitLen (x : ℤ) : ℕ := if x = 0 then 0 else x.natAbs.log2 + 1

theorem bitLen_le_iff (x : ℤ) (n : ℕ) : bitLen x ≤ n ↔ x.natAbs < 2 ^ n := by
  unfold bitLen
  split
  · next h => subst h; simp
  · next h => rw [Nat.succ_le_iff, Nat.log2_lt (by omega)]

/-- An `sdk.Dec`. -/
structure Dec where
  i : ℤ
  deriving DecidableEq, Repr

namespace Dec

@[ext] theorem ext {a b : Dec} (h : a.i = b.i) : a = b := by
  cases a; cases b; simp_all

instance : LinearOrder Dec := LinearOrder.lift' Dec.i (fun _ _ h => Dec.ext h)

theorem le_def {a b : Dec} : a ≤ b ↔ a.i ≤ b.i := Iff.rfl

theorem lt_def {a b : Dec} : a < b ↔ a.i < b.i := Iff.rfl

/-- `sdk.ZeroDec()`. -/
def zero : Dec := ⟨0⟩

/-- `sdk.OneDec()`. -/
def one : Dec := ⟨decOne⟩

instance : Inhabited Dec := ⟨zero⟩

/-- `sdk.NewDec` and `sdk.NewDecFromInt`; neither checks its result. -/
def ofInt (n : ℤ) : Dec := ⟨n * decOne⟩

/-- `sdk.NewDecWithPrec(n, prec)`. -/
def withPrec (n : ℤ) (prec : ℕ) : Dec := ⟨n * 10 ^ (18 - prec)⟩

/-- `IsPositive`. -/
def isPositive (d : Dec) : Bool := 0 < d.i

/-- `IsNegative`. -/
def isNegative (d : Dec) : Bool := d.i < 0

/-- `IsZero`. -/
def isZero (d : Dec) : Bool := d.i == 0

/-- A raw result within the bit bound. -/
def Fits (x : ℤ) : Prop := x.natAbs < 2 ^ maxDecBitLen

instance (x : ℤ) : Decidable (Fits x) := inferInstanceAs (Decidable (_ < _))

/-- The overflow check at the end of an operation. -/
def checked (x : ℤ) : Option Dec := if bitLen x > maxDecBitLen then none else some ⟨x⟩

theorem checked_of_fits {x : ℤ} (h : Fits x) : checked x = some ⟨x⟩ := by
  unfold checked
  rw [if_neg (not_lt.mpr ((bitLen_le_iff x maxDecBitLen).mpr h))]

theorem checked_of_not_fits {x : ℤ} (h : ¬ Fits x) : checked x = none := by
  unfold checked
  rw [if_pos (not_le.mp (fun hle => h ((bitLen_le_iff x maxDecBitLen).mp hle)))]

theorem checked_eq_some {x : ℤ} {d : Dec} : checked x = some d ↔ Fits x ∧ d = ⟨x⟩ := by
  by_cases h : Fits x
  · rw [checked_of_fits h]
    simp [h, eq_comm]
  · rw [checked_of_not_fits h]
    simp [h]

theorem checked_isSome {x : ℤ} : (checked x).isSome ↔ Fits x := by
  by_cases h : Fits x
  · simp [checked_of_fits h, h]
  · simp [checked_of_not_fits h, h]

/-- A value between zero and one that fits also fits. -/
theorem Fits.of_le {x y : ℤ} (h₀ : 0 ≤ x) (h : x ≤ y) (hy : Fits y) : Fits x := by
  unfold Fits at *
  omega

theorem fits_zero : Fits 0 := by
  unfold Fits
  positivity

theorem fits_iff_of_nonneg {x : ℤ} (h : 0 ≤ x) : Fits x ↔ x < 2 ^ maxDecBitLen := by
  unfold Fits
  zify
  rw [abs_of_nonneg h]

theorem fits_of_lt_two_pow {x : ℤ} {k : ℕ} (h₀ : 0 ≤ x) (h : x < 2 ^ k) (hk : k ≤ maxDecBitLen) :
    Fits x := by
  rw [fits_iff_of_nonneg h₀]
  exact h.trans_le (pow_le_pow_right₀ (by norm_num) hk)

/-- `chopPrecisionAndRound`: divide by `10^18`, half to even. -/
def chopPrecisionAndRound (x : ℤ) : ℤ := Rounding.roundHalfEven decOne x

/-- `Add`. -/
def add (a b : Dec) : Option Dec := checked (a.i + b.i)

/-- `Sub`. -/
def sub (a b : Dec) : Option Dec := checked (a.i - b.i)

/-- `Mul`. -/
def mul (a b : Dec) : Option Dec := checked (chopPrecisionAndRound (a.i * b.i))

/-- `MulInt` and `MulInt64`. -/
def mulInt (a : Dec) (n : ℤ) : Option Dec := checked (a.i * n)

/-- The raw value of `Quo`: the dividend is scaled by `10^36`, divided with
    truncation, and the last 18 digits are rounded off. -/
def quoRaw (a b : ℤ) : ℤ := chopPrecisionAndRound ((a * (decOne * decOne)).tdiv b)

/-- `Quo`. -/
def quo (a b : Dec) : Option Dec := if b.i = 0 then none else checked (quoRaw a.i b.i)

/-- `QuoInt64`. -/
def quoInt64 (a : Dec) (n : ℤ) : Option Dec := if n = 0 then none else some ⟨a.i.tdiv n⟩

/-- `RoundInt`. -/
def roundInt (a : Dec) : ℤ := chopPrecisionAndRound a.i

/-- `RoundInt64`, which panics outside the range of `int64`. -/
def roundInt64 (a : Dec) : Option ℤ :=
  if -2 ^ 63 ≤ a.roundInt ∧ a.roundInt < 2 ^ 63 then some a.roundInt else none

/-- `TruncateInt`. -/
def truncateInt (a : Dec) : ℤ := a.i.tdiv decOne

/-- `String`: all 18 decimals. -/
def string (a : Dec) : String :=
  let decimals := toString (a.i.natAbs % decOne)
  (if a.i < 0 then "-" else "") ++ toString (a.i.natAbs / decOne) ++ "." ++
    String.ofList (List.replicate (18 - decimals.length) '0') ++ decimals

/-! ### Facts about the raw results -/

theorem decOne_pos : 0 < decOne := by unfold decOne; positivity

theorem decOne_posInt : (0 : ℤ) < decOne := by exact_mod_cast decOne_pos

/-- The quotient of a non-negative number by a positive one is not negative. -/
theorem quoRaw_nonneg {a b : ℤ} (ha : 0 ≤ a) (hb : 0 ≤ b) : 0 ≤ quoRaw a b := by
  unfold quoRaw chopPrecisionAndRound
  apply Rounding.roundHalfEven_nonneg
  exact Int.tdiv_nonneg (by positivity) hb

/-- When a quotient of positive numbers rounds to zero: twice the exact
    quotient is below one unit in the last place (up to the first truncation). -/
theorem quoRaw_eq_zero_iff {a b : ℤ} (ha : 0 ≤ a) (hb : 0 < b) :
    quoRaw a b = 0 ↔ 2 * (a * (decOne * decOne)) < (decOne + 2) * b := by
  unfold quoRaw chopPrecisionAndRound
  have hnum : 0 ≤ a * ((decOne : ℤ) * decOne) := by positivity
  rw [Rounding.roundHalfEven_eq_zero_iff decOne decOne_pos (Int.tdiv_nonneg hnum hb.le),
    Int.tdiv_eq_ediv_of_nonneg hnum]
  have heven : (decOne : ℤ) = 2 * (5 * 10 ^ 17) := by unfold decOne; norm_num
  have hhalf : 2 * (a * ((decOne : ℤ) * decOne) / b) ≤ decOne ↔
      a * ((decOne : ℤ) * decOne) / b < 5 * 10 ^ 17 + 1 := by
    rw [heven]; omega
  rw [hhalf, Int.ediv_lt_iff_lt_mul hb]
  constructor
  · intro h; rw [heven] at h ⊢; linarith
  · intro h; rw [heven] at h ⊢; linarith

/-- Which dividends give a quotient: those within half a unit of it, where the upper bound
    is one unit of the truncated digits wider for an even quotient, and the lower
    bound that much narrower for an odd one. -/
theorem quoRaw_eq_iff {a b q : ℤ} (ha : 0 ≤ a) (hb : 0 < b) :
    quoRaw a b = q ↔
      (decOne * q - 5 * 10 ^ 17 + q % 2) * b ≤ a * (decOne * decOne) ∧
        a * (decOne * decOne) < (decOne * q + 5 * 10 ^ 17 + (1 - q % 2)) * b := by
  have hnum : 0 ≤ a * ((decOne : ℤ) * decOne) := by positivity
  unfold quoRaw chopPrecisionAndRound
  rw [Int.tdiv_eq_ediv_of_nonneg hnum, Rounding.roundHalfEven_eq_iff decOne decOne_pos,
    ← Int.le_ediv_iff_mul_le hb, ← Int.ediv_lt_iff_lt_mul hb]
  unfold Rounding.Nearest
  generalize a * ((decOne : ℤ) * decOne) / b = t
  have heven : (decOne : ℤ) = 2 * (5 * 10 ^ 17) := by unfold decOne; norm_num
  rw [Int.even_iff]
  rcases abs_cases (t - decOne * q) with ⟨habs, _⟩ | ⟨habs, _⟩
  · rw [habs]
    omega
  · rw [habs]
    omega

/-! ### Raw values of results -/

theorem add_raw {a b c : Dec} (h : a.add b = some c) : c.i = a.i + b.i := by
  rw [(checked_eq_some.mp h).2]

theorem sub_raw {a b c : Dec} (h : a.sub b = some c) : c.i = a.i - b.i := by
  rw [(checked_eq_some.mp h).2]

theorem mul_raw {a b c : Dec} (h : a.mul b = some c) :
    c.i = chopPrecisionAndRound (a.i * b.i) := by
  rw [(checked_eq_some.mp h).2]

theorem quo_raw {a b c : Dec} (h : a.quo b = some c) : c.i = quoRaw a.i b.i := by
  unfold quo at h
  split at h
  · cases h
  · rw [(checked_eq_some.mp h).2]

/-! ### Rounding errors

    In units of the last place: a product is off by at most one half, a
    quotient by at most one. -/

theorem two_mul_chop_le (x : ℤ) : 2 * (decOne * chopPrecisionAndRound x) ≤ 2 * x + decOne :=
  Rounding.two_mul_roundHalfEven_le decOne decOne_pos x

theorem le_two_mul_chop (x : ℤ) : 2 * x ≤ 2 * (decOne * chopPrecisionAndRound x) + decOne :=
  Rounding.le_two_mul_roundHalfEven decOne decOne_pos x

/-- Multiples of `10^18` are chopped exactly. -/
theorem chop_mul (k : ℤ) : chopPrecisionAndRound (decOne * k) = k :=
  Rounding.roundHalfEven_mul decOne decOne_pos k

theorem mul_quoRaw_le {a b : ℤ} (hb : 0 < b) : b * quoRaw a b ≤ a * decOne + b := by
  have hdiv := Int.mul_tdiv_add_tmod (a * (decOne * decOne)) b
  have hmod := Int.lt_tmod_of_pos (a * (decOne * decOne)) hb
  have hround := two_mul_chop_le ((a * (decOne * decOne)).tdiv b)
  unfold quoRaw
  generalize (a * (decOne * decOne)).tdiv b = t at hdiv hround ⊢
  generalize chopPrecisionAndRound t = r at hround ⊢
  have hD : (2 : ℤ) ≤ decOne := by unfold decOne; norm_num
  -- one unit covers the half of the rounding and the truncation before it
  have hmul := mul_le_mul_of_nonneg_left hround hb.le
  have hscaled : (decOne : ℤ) * (b * r) ≤ decOne * (a * decOne + b) := by nlinarith
  exact le_of_mul_le_mul_left hscaled decOne_posInt

theorem le_mul_quoRaw {a b : ℤ} (hb : 0 < b) : a * decOne - b ≤ b * quoRaw a b := by
  have hdiv := Int.mul_tdiv_add_tmod (a * (decOne * decOne)) b
  have hmod := Int.tmod_lt_of_pos (a * (decOne * decOne)) hb
  have hround := le_two_mul_chop ((a * (decOne * decOne)).tdiv b)
  unfold quoRaw
  generalize (a * (decOne * decOne)).tdiv b = t at hdiv hround ⊢
  generalize chopPrecisionAndRound t = r at hround ⊢
  have hD : (2 : ℤ) ≤ decOne := by unfold decOne; norm_num
  have hmul := mul_le_mul_of_nonneg_left hround hb.le
  have hscaled : (decOne : ℤ) * (a * decOne - b) ≤ decOne * (b * r) := by nlinarith
  exact le_of_mul_le_mul_left hscaled decOne_posInt

/-- Dividing by one changes nothing. -/
theorem quoRaw_one (a : ℤ) : quoRaw a decOne = a := by
  unfold quoRaw
  have hne : (decOne : ℤ) ≠ 0 := decOne_posInt.ne'
  rw [show a * ((decOne : ℤ) * decOne) = decOne * a * decOne by ring,
    Int.mul_tdiv_cancel _ hne, chop_mul]

/-- A quotient that is at most `q` exactly is so after rounding. -/
theorem quoRaw_le {a b q : ℤ} (hb : 0 < b) (h : a * decOne ≤ q * b) : quoRaw a b ≤ q := by
  have hscaled : a * (decOne * decOne) ≤ (decOne * q) * b := by
    have := mul_le_mul_of_nonneg_left h decOne_posInt.le
    linarith
  have hdiv : (a * (decOne * decOne)).tdiv b ≤ decOne * q := by
    have := Int.tdiv_le_tdiv hb hscaled
    rwa [Int.mul_tdiv_cancel _ hb.ne'] at this
  exact Rounding.roundHalfEven_le_of_le_mul decOne decOne_pos hdiv

/-- A quotient grows with its dividend. -/
theorem quoRaw_mono {a a' b : ℤ} (hb : 0 < b) (h : a ≤ a') : quoRaw a b ≤ quoRaw a' b := by
  have hscaled : a * ((decOne : ℤ) * decOne) ≤ a' * (decOne * decOne) :=
    mul_le_mul_of_nonneg_right h (by positivity)
  exact Rounding.roundHalfEven_mono decOne (Int.tdiv_le_tdiv hb hscaled)

/-- A quotient does not grow with its divisor. -/
theorem quoRaw_antitone {a b b' : ℤ} (ha : 0 ≤ a) (hb : 0 < b) (h : b ≤ b') :
    quoRaw a b' ≤ quoRaw a b := by
  have hnum : 0 ≤ a * ((decOne : ℤ) * decOne) := by positivity
  have hdiv : (a * (decOne * decOne)).tdiv b' ≤ (a * (decOne * decOne)).tdiv b := by
    rw [Int.tdiv_eq_ediv_of_nonneg hnum, Int.tdiv_eq_ediv_of_nonneg hnum,
      Int.le_ediv_iff_mul_le hb]
    have hb' : 0 < b' := hb.trans_le h
    calc a * (decOne * decOne) / b' * b
        ≤ a * (decOne * decOne) / b' * b' :=
          mul_le_mul_of_nonneg_left h (Int.ediv_nonneg hnum hb'.le)
      _ ≤ a * (decOne * decOne) := Int.ediv_mul_le _ hb'.ne'
  exact Rounding.roundHalfEven_mono decOne hdiv

/-- A share of at most one of an amount is at most the amount. -/
theorem chop_mul_le {share amount : ℤ} (hshare : share ≤ decOne) (hamount : 0 ≤ amount) :
    chopPrecisionAndRound (share * amount) ≤ amount :=
  Rounding.roundHalfEven_le_of_le_mul decOne decOne_pos
    (mul_le_mul_of_nonneg_right hshare hamount)

/-! ### When operations return -/

theorem mk_eq_zero {x : ℤ} : (⟨x⟩ : Dec) = zero ↔ x = 0 :=
  ⟨fun h => congrArg Dec.i h, fun h => congrArg Dec.mk h⟩

theorem returns_checked (x : ℤ) : Returns (checked x) (Fits x) ⟨x⟩ :=
  ⟨checked_of_fits, checked_of_not_fits⟩

theorem returns_add (a b : Dec) : Returns (a.add b) (Fits (a.i + b.i)) ⟨a.i + b.i⟩ :=
  returns_checked _

theorem returns_sub (a b : Dec) : Returns (a.sub b) (Fits (a.i - b.i)) ⟨a.i - b.i⟩ :=
  returns_checked _

theorem returns_mulInt (a : Dec) (n : ℤ) : Returns (a.mulInt n) (Fits (a.i * n)) ⟨a.i * n⟩ :=
  returns_checked _

theorem returns_mul (a b : Dec) :
    Returns (a.mul b) (Fits (chopPrecisionAndRound (a.i * b.i)))
      ⟨chopPrecisionAndRound (a.i * b.i)⟩ :=
  returns_checked _

theorem returns_quo {b : Dec} (hb : b.i ≠ 0) (a : Dec) :
    Returns (a.quo b) (Fits (quoRaw a.i b.i)) ⟨quoRaw a.i b.i⟩ := by
  unfold quo
  rw [if_neg hb]
  exact returns_checked _

theorem returns_quoInt64 (a : Dec) (n : ℤ) : Returns (a.quoInt64 n) (n ≠ 0) ⟨a.i.tdiv n⟩ :=
  ⟨fun h => if_neg h, fun h => if_pos (not_not.mp h)⟩

theorem fits_decOne_succ : Fits (decOne + 1) := by decide +kernel

theorem chop_nonneg {x : ℤ} (hx : 0 ≤ x) : 0 ≤ chopPrecisionAndRound x :=
  Rounding.roundHalfEven_nonneg decOne hx

/-- Which products fit after rounding: the tie below `2^315` is rounded up to it. -/
theorem fits_chop_iff {x : ℤ} (hx : 0 ≤ x) :
    Fits (chopPrecisionAndRound x) ↔ 2 * x < decOne * (2 ^ 316 - 1) := by
  have hodd : ¬ Even ((2 : ℤ) ^ 315 - 1) := by
    rw [Int.not_even_iff_odd]
    exact (even_two.pow_of_ne_zero (by norm_num)).sub_odd odd_one
  have hpow : (2 : ℤ) * (2 ^ 315 - 1) + 1 = 2 ^ 316 - 1 := by
    rw [pow_succ' (2 : ℤ) 315]
    generalize (2 : ℤ) ^ 315 = bound
    omega
  have hround := Rounding.roundHalfEven_le_iff decOne decOne_pos (x := x) (k := 2 ^ 315 - 1)
  rw [hpow, or_iff_left (fun htie => hodd htie.2)] at hround
  rw [fits_iff_of_nonneg (chop_nonneg hx), ← Int.le_sub_one_iff]
  exact hround

/-- The difference of two decimals that are not negative. -/
theorem fits_sub {a b : ℤ} (ha : 0 ≤ a) (hb : 0 ≤ b) (hfa : Fits a) (hfb : Fits b) :
    Fits (a - b) := by
  unfold Fits at *
  omega

end Dec

end TerraClassic
