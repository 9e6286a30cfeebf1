import Mathlib.Algebra.Ring.Int.Defs
import Mathlib.Algebra.Ring.Nat
import Mathlib.Data.Int.DivMod

/-!
# Checked signed arithmetic

An `int64_t` operation whose exact result does not fit is undefined behaviour, and has no
value here.
-/

namespace Threads.Checked

/-- The value is an `int64_t`. -/
def Fits (z : Int) : Prop := -2 ^ 63 ≤ z ∧ z < 2 ^ 63

instance (z : Int) : Decidable (Fits z) := inferInstanceAs (Decidable (_ ∧ _))

def checked (z : Int) : Option Int := if Fits z then some z else none

def add (a b : Int) : Option Int := checked (a + b)

def mul (a b : Int) : Option Int := checked (a * b)

/-- `/` truncates towards zero. -/
def div (a b : Int) : Option Int := if b = 0 then none else checked (a.tdiv b)

/-- `a % b` is defined if `a / b` is. -/
def rem (a b : Int) : Option Int := (div a b).map fun _ => a.tmod b

/-- The conversion of an `int64_t` to an `int`. -/
def toInt (z : Int) : Int := z.bmod (2 ^ 32)

@[simp] theorem checked_eq_some {z r : Int} : checked z = some r ↔ Fits z ∧ z = r := by
  simp [checked]

@[simp] theorem add_eq_some {a b r : Int} : add a b = some r ↔ Fits (a + b) ∧ a + b = r :=
  checked_eq_some

@[simp] theorem mul_eq_some {a b r : Int} : mul a b = some r ↔ Fits (a * b) ∧ a * b = r :=
  checked_eq_some

@[simp] theorem div_eq_some {a b r : Int} :
    div a b = some r ↔ b ≠ 0 ∧ Fits (a.tdiv b) ∧ a.tdiv b = r := by
  simp [div]

@[simp] theorem rem_eq_some {a b r : Int} :
    rem a b = some r ↔ b ≠ 0 ∧ Fits (a.tdiv b) ∧ a.tmod b = r := by
  unfold rem
  rw [Option.map_eq_some_iff]
  constructor
  · rintro ⟨q, quotient, rfl⟩
    obtain ⟨nonzero, fits, -⟩ := div_eq_some.mp quotient
    exact ⟨nonzero, fits, rfl⟩
  · rintro ⟨nonzero, fits, rfl⟩
    exact ⟨_, div_eq_some.mpr ⟨nonzero, fits, rfl⟩, rfl⟩

/-- A quotient by a positive number is no further from 0. -/
theorem fits_tdiv {a b : Int} (fits : Fits a) (positive : 0 < b) : Fits (a.tdiv b) := by
  have smaller := Int.natAbs_tdiv_le_natAbs a b
  unfold Fits at *
  rcases Int.le_total 0 a with sign | sign
  · have quotient := Int.tdiv_nonneg sign (Int.le_of_lt positive)
    omega
  · have quotient := Int.tdiv_nonneg (Int.neg_nonneg_of_nonpos sign) (Int.le_of_lt positive)
    rw [Int.neg_tdiv] at quotient
    omega

/-- An `int` is converted to itself. -/
theorem toInt_eq_self {z : Int} (low : -2 ^ 31 ≤ z) (high : z < 2 ^ 31) : toInt z = z := by
  unfold toInt
  rw [Int.bmod_def]
  omega

theorem toInt_ge (z : Int) : -2 ^ 31 ≤ toInt z := by
  unfold toInt
  rw [Int.bmod_def]
  omega

theorem toInt_lt {z : Int} (long : 2 ^ 31 ≤ z) : toInt z < z := by
  unfold toInt
  rw [Int.bmod_def]
  omega

end Threads.Checked
