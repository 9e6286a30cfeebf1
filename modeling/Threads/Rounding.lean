import Mathlib.Algebra.Order.Ring.Int
import Mathlib.Data.Int.DivMod

/-!
# Rounding a quotient by its remainder

`n / q` is rounded up when its remainder reaches the truncated half of `q`. For an odd
`q` the truncated half lies below the middle.
-/

namespace Threads.Rounding

def rounded (q n : Int) : Int := n / q + if q / 2 ≤ n % q then 1 else 0

/-- What rounding adds to the number, or takes from it. -/
theorem rounded_error {q : Int} (n : Int) :
    rounded q n * q - n = if q / 2 ≤ n % q then q - n % q else -(n % q) := by
  have parts := Int.mul_ediv_add_emod n q
  unfold rounded
  split
  · rw [Int.add_mul, Int.mul_comm (n / q)]
    omega
  · rw [Int.add_zero, Int.mul_comm]
    omega

/-- The result is a nearest integer unless the remainder is the truncated half of an odd
number. -/
theorem rounded_nearest_iff {q : Int} (positive : 0 < q) (n : Int) :
    2 * |rounded q n * q - n| ≤ q ↔ q % 2 = 0 ∨ n % q ≠ q / 2 := by
  have low := Int.emod_nonneg n (Int.ne_of_gt positive)
  have high := Int.emod_lt_of_pos n positive
  rw [rounded_error]
  split
  · rw [abs_of_nonneg (by omega)]
    omega
  · rw [abs_neg, abs_of_nonneg low]
    omega

theorem rounded_mono {q n m : Int} (positive : 0 < q) (le : n ≤ m) :
    rounded q n ≤ rounded q m := by
  have quotients := Int.ediv_le_ediv positive le
  unfold rounded
  by_cases same : n / q = m / q
  · -- in one interval the larger number has the larger remainder
    have parts := Int.mul_ediv_add_emod n q
    have parts' := Int.mul_ediv_add_emod m q
    rw [same] at parts ⊢
    split <;> split <;> omega
  · split <;> split <;> omega

theorem rounded_mul_add {q : Int} (positive : 0 < q) (k n : Int) :
    rounded q (k * q + n) = k + rounded q n := by
  unfold rounded
  rw [Int.add_comm (k * q), Int.add_mul_ediv_right n k (Int.ne_of_gt positive),
    Int.add_mul_emod_self_right]
  omega

end Threads.Rounding
