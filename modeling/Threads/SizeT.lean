import Mathlib.Algebra.Ring.Nat

/-!
# `size_t`

Counters of the source are `size_t` members, changed by `++` and `--`.
-/

namespace Threads

/-- `++` on a `size_t`. -/
def increment (n : Nat) : Nat := if n = 2 ^ 64 - 1 then 0 else n + 1

/-- `--` on a `size_t`. -/
def decrement (n : Nat) : Nat := if n = 0 then 2 ^ 64 - 1 else n - 1

/-- A number as a `size_t` holds it. -/
def asSize (n : Nat) : Nat := n % 2 ^ 64

theorem decrement_of_pos {n : Nat} (h : 0 < n) : decrement n = n - 1 := by
  simp [decrement, Nat.ne_of_gt h]

theorem increment_lt {n : Nat} (h : n < 2 ^ 64) : increment n < 2 ^ 64 := by
  unfold increment
  split <;> omega

theorem decrement_lt {n : Nat} (h : n < 2 ^ 64) : decrement n < 2 ^ 64 := by
  unfold decrement
  split <;> omega

theorem asSize_increment (n k : Nat) : asSize (increment n + k) = asSize (n + 1 + k) := by
  unfold asSize increment
  split <;> omega

theorem asSize_decrement (n k : Nat) : asSize (decrement n + 1 + k) = asSize (n + k) := by
  unfold asSize decrement
  split <;> omega

end Threads
