import Mathlib.Algebra.Order.Ring.Abs
import Mathlib.Algebra.Order.Ring.Rat
import Mathlib.Data.Int.Log
import Mathlib.Data.Rat.Floor
import Mathlib.Tactic.Linarith

/-!
# Numbers in double precision

`double x` is the number of 53 significant bits that is nearest to `x`, where the exponent has no bounds.
`abs_double_sub_le`: how far it is away.
-/

namespace Lib

/-- The nearest integer, and of two of them the even one. -/
def halfEven (x : ℚ) : ℤ :=
  if Int.fract x < 1 / 2 then ⌊x⌋
  else if 1 / 2 < Int.fract x then ⌊x⌋ + 1
  else if ⌊x⌋ % 2 = 0 then ⌊x⌋ else ⌊x⌋ + 1

/-- The distance of two neighbours. -/
def ulp (x : ℚ) : ℚ := 2 ^ (Int.log 2 |x| - 52)

def double (x : ℚ) : ℚ := halfEven (x / ulp x) * ulp x

example : double (1 / 10) = 3602879701896397 / 36028797018963968 := by decide +kernel

theorem abs_halfEven_sub_le (x : ℚ) : |halfEven x - x| ≤ 1 / 2 := by
  have hx := Int.self_sub_floor x
  have hpos := Int.fract_nonneg x
  have hlt := Int.fract_lt_one x
  unfold halfEven
  rw [abs_le]
  split_ifs with hlow hhigh <;> push_cast <;> constructor <;> linarith

theorem ulp_pos (x : ℚ) : 0 < ulp x := zpow_pos (by norm_num) _

theorem ulp_le {x : ℚ} (hx : x ≠ 0) : ulp x ≤ |x| / 2 ^ 52 := by
  have hlog : ((2 : ℕ) : ℚ) ^ Int.log 2 |x| ≤ |x| := Int.zpow_log_le_self (by decide) (abs_pos.2 hx)
  rw [ulp, zpow_sub₀ (by norm_num)]
  exact div_le_div_of_nonneg_right hlog (by positivity)

/-- **The relative error** is half of the last place. -/
theorem abs_double_sub_le (x : ℚ) : |double x - x| ≤ |x| / 2 ^ 53 := by
  rcases eq_or_ne x 0 with rfl | hx
  · simp [double, halfEven]
  have hulp := ulp_pos x
  have hround := abs_halfEven_sub_le (x / ulp x)
  have hdouble : double x - x = (halfEven (x / ulp x) - x / ulp x) * ulp x := by
    rw [double, sub_mul, div_mul_cancel₀ x hulp.ne']
  calc |double x - x|
      = |halfEven (x / ulp x) - x / ulp x| * ulp x := by rw [hdouble, abs_mul, abs_of_pos hulp]
    _ ≤ 1 / 2 * ulp x := mul_le_mul_of_nonneg_right hround hulp.le
    _ ≤ 1 / 2 * (|x| / 2 ^ 52) := mul_le_mul_of_nonneg_left (ulp_le hx) (by norm_num)
    _ = |x| / 2 ^ 53 := by ring

/-- A quotient of which the dividend is rounded as well. -/
theorem abs_double_div_sub_le (x c : ℚ) : |double (double x / c) - x / c| ≤ |x / c| / 2 ^ 51 := by
  have hx : |double x / c - x / c| ≤ |x / c| / 2 ^ 53 := by
    rw [← sub_div, abs_div, abs_div, div_right_comm]
    exact div_le_div_of_nonneg_right (abs_double_sub_le x) (abs_nonneg c)
  have hq := abs_double_sub_le (double x / c)
  have hsize : |double x / c| ≤ |x / c| + |x / c| / 2 ^ 53 := by
    have htri := abs_sub_abs_le_abs_sub (double x / c) (x / c)
    linarith
  have hpos := abs_nonneg (x / c)
  calc |double (double x / c) - x / c|
      ≤ |double (double x / c) - double x / c| + |double x / c - x / c| := abs_sub_le _ _ _
    _ ≤ (|x / c| + |x / c| / 2 ^ 53) / 2 ^ 53 + |x / c| / 2 ^ 53 := by linarith
    _ ≤ |x / c| / 2 ^ 51 := by linarith

theorem halfEven_intCast (n : ℤ) : halfEven n = n := by
  rw [halfEven, Int.fract_intCast, if_pos (by norm_num), Int.floor_intCast]

/-- **An integer of 53 bits** is not rounded. -/
theorem double_intCast {n : ℤ} (h : |n| < 2 ^ 53) : double n = n := by
  rcases eq_or_ne n 0 with rfl | hn
  · simp [double, halfEven]
  have hpos : (0 : ℚ) < |(n : ℚ)| := abs_pos.2 (by exact_mod_cast hn)
  have hlt : |(n : ℚ)| < ((2 : ℕ) : ℚ) ^ (53 : ℤ) := by exact_mod_cast h
  have hlog : Int.log 2 |(n : ℚ)| ≤ 52 := Int.lt_add_one_iff.1 ((Int.lt_zpow_iff_log_lt (by decide) hpos).1 hlt)
  obtain ⟨k, hk⟩ := Int.le.dest hlog
  have hulp : ulp (n : ℚ) = ((2 : ℚ) ^ k)⁻¹ := by
    rw [ulp, show Int.log 2 |(n : ℚ)| - 52 = -(k : ℤ) by omega, zpow_neg, zpow_natCast]
  have hscaled : (n : ℚ) / ulp (n : ℚ) = ((n * 2 ^ k : ℤ) : ℚ) := by
    rw [hulp, div_inv_eq_mul]
    push_cast
    rfl
  rw [double, hscaled, halfEven_intCast, ← hscaled, div_mul_cancel₀ _ (ulp_pos _).ne']

theorem double_zero : double 0 = 0 := by simpa using double_intCast (n := 0) (by decide)

theorem double_nonneg {x : ℚ} (hx : 0 ≤ x) : 0 ≤ double x := by
  have herr := abs_le.1 (abs_double_sub_le x)
  rw [abs_of_nonneg hx] at herr
  linarith [herr.1]

end Lib
