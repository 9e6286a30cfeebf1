import Mathlib.Algebra.BigOperators.Group.List.Basic
import Mathlib.Algebra.Ring.Nat
import Mathlib.Data.List.Basic

/-!
# Totals over a list of threads

Counters of a concurrent program are compared with sums over its threads: each
thread contributes a number that depends on where it stands, and one step
changes the contribution of one thread.
-/

namespace Threads.Concurrency

variable {α : Type}

/-- The sum of the contributions of all threads. -/
def total (f : α → Nat) (ts : List α) : Nat := (ts.map f).sum

@[simp] theorem total_nil (f : α → Nat) : total f [] = 0 := rfl

theorem total_none {f : α → Nat} {ts : List α} (h : ts = []) : total f ts = 0 := by
  rw [h, total_nil]

@[simp] theorem total_cons (f : α → Nat) (t : α) (ts : List α) :
    total f (t :: ts) = f t + total f ts := by simp [total]

@[simp] theorem total_append (f : α → Nat) (ts us : List α) :
    total f (ts ++ us) = total f ts + total f us := by simp [total]

theorem total_set (f : α → Nat) {ts : List α} {i : Nat} {t : α} (h : ts[i]? = some t) (u : α) :
    total f (ts.set i u) + f t = total f ts + f u := by
  induction ts generalizing i with
  | nil => simp at h
  | cons s ts ih =>
    cases i with
    | zero =>
      obtain rfl : s = t := by simpa using h
      simp only [List.set_cons_zero, total_cons]
      omega
    | succ i =>
      have := ih (i := i) (by simpa using h)
      simp only [List.set_cons_succ, total_cons]
      omega

theorem le_total (f : α → Nat) {ts : List α} {t : α} (h : t ∈ ts) : f t ≤ total f ts := by
  induction ts with
  | nil => simp at h
  | cons s ts ih =>
    rw [total_cons]
    rcases List.mem_cons.mp h with rfl | h
    · omega
    · have := ih h
      omega

theorem le_total_of_getElem? (f : α → Nat) {ts : List α} {i : Nat} {t : α} (h : ts[i]? = some t) :
    f t ≤ total f ts :=
  le_total f (List.mem_of_getElem? h)

theorem add_le_total (f : α → Nat) {ts : List α} {i j : Nat} {t u : α} (differ : i ≠ j)
    (h : ts[i]? = some t) (k : ts[j]? = some u) : f t + f u ≤ total f ts := by
  induction ts generalizing i j with
  | nil => simp at h
  | cons s ts ih =>
    rw [total_cons]
    cases i with
    | zero =>
      cases j with
      | zero => exact absurd rfl differ
      | succ j =>
        obtain rfl : s = t := by simpa using h
        have rest := le_total_of_getElem? f (show ts[j]? = some u by simpa using k)
        omega
    | succ i =>
      cases j with
      | zero =>
        obtain rfl : s = u := by simpa using k
        have rest := le_total_of_getElem? f (show ts[i]? = some t by simpa using h)
        omega
      | succ j =>
        have rest := ih (i := i) (j := j) (by omega) (by simpa using h) (by simpa using k)
        omega

theorem total_eq_zero {f : α → Nat} {ts : List α} : total f ts = 0 ↔ ∀ t ∈ ts, f t = 0 := by
  induction ts with
  | nil => simp
  | cons s ts ih => simp [ih]

theorem exists_of_total_pos {f : α → Nat} {ts : List α} (h : 0 < total f ts) :
    ∃ (i : Nat) (t : α), ts[i]? = some t ∧ 0 < f t := by
  by_contra none
  have zero : total f ts = 0 := total_eq_zero.mpr fun t ht => by
    obtain ⟨i, hi⟩ := List.mem_iff_getElem?.mp ht
    by_contra pos
    exact none ⟨i, t, hi, Nat.pos_of_ne_zero pos⟩
  omega

theorem total_mono {f g : α → Nat} {ts : List α} (h : ∀ t ∈ ts, f t ≤ g t) :
    total f ts ≤ total g ts := by
  induction ts with
  | nil => simp
  | cons s ts ih =>
    have head := h s List.mem_cons_self
    have tail := ih fun t ht => h t (List.mem_cons_of_mem s ht)
    simp only [total_cons]
    omega

theorem total_congr {f g : α → Nat} {ts us : List α}
    (h : List.Forall₂ (fun t u => f t = g u) ts us) : total f ts = total g us := by
  induction h with
  | nil => rfl
  | cons eq _ ih => simp only [total_cons, eq, ih]

theorem total_add (f g : α → Nat) (ts : List α) :
    total (fun t => f t + g t) ts = total f ts + total g ts := by
  induction ts with
  | nil => rfl
  | cons s ts ih =>
    simp only [total_cons, ih]
    omega

end Threads.Concurrency
