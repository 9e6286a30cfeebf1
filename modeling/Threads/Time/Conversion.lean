import Mathlib.Algebra.Order.Ring.Abs
import Mathlib.Tactic.Ring
import Threads.Rounding
import Threads.Time.TimeUtil

/-!
# Tick conversions

`ToTicks` to a rate that divides the old one rounds by the remainder at the ratio of the
rates. Millisecond values come back from a `timespec` and a `timeval`.
-/

namespace Threads.TimeUtil

open Checked Rounding

/-! ## Rounding -/

section Ticks

variable {secs oldTicks oldTicksPerSec newTicksPerSec result : Int}

/-- Ticks are rounded at the ratio of the rates. -/
theorem toTicks_eq {ratio : Int} (positive : 0 < newTicksPerSec) (ratioPos : 0 < ratio)
    (nonneg : 0 ≤ oldTicks)
    (value : toTicks secs oldTicks (newTicksPerSec * ratio) newTicksPerSec = some result) :
    result = secs * newTicksPerSec + rounded ratio oldTicks := by
  have quotient : (newTicksPerSec * ratio).tdiv newTicksPerSec = ratio :=
    Int.mul_tdiv_cancel_left ratio (Int.ne_of_gt positive)
  have part : (oldTicks * newTicksPerSec).tdiv (newTicksPerSec * ratio) = oldTicks / ratio := by
    rw [Int.mul_comm oldTicks, Int.mul_tdiv_mul_of_pos oldTicks ratio positive]
    exact Int.tdiv_eq_ediv_of_nonneg nonneg
  have left : oldTicks.tmod ratio = oldTicks % ratio := Int.tmod_eq_emod_of_nonneg nonneg
  have half : ratio.tdiv 2 = ratio / 2 := Int.tdiv_eq_ediv_of_nonneg (Int.le_of_lt ratioPos)
  simp only [toTicks, Option.bind_eq_bind, Option.bind_eq_some_iff, mul_eq_some, div_eq_some,
    add_eq_some, Option.pure_def] at value
  obtain ⟨whole, ⟨-, rfl⟩, scaled, ⟨-, rfl⟩, ticks, ⟨-, -, rfl⟩, sum, ⟨-, rfl⟩, oldPerNew,
    ⟨-, -, rfl⟩, value⟩ := value
  rw [quotient, part, if_pos (Int.ne_of_gt ratioPos)] at value
  simp only [Option.bind_eq_some_iff, rem_eq_some, div_eq_some] at value
  obtain ⟨remainder, ⟨-, -, rfl⟩, limit, ⟨-, -, rfl⟩, value⟩ := value
  rw [left, half] at value
  unfold rounded
  split at value
  · rw [if_pos ‹_›, ← (add_eq_some.mp value).2]
    omega
  · rw [if_neg ‹_›, ← Option.some.inj value]
    omega

/-- The ratio of a rate that is exceeded by some ticks. -/
theorem ratio_pos {ratio : Int} (positive : 0 < newTicksPerSec) (nonneg : 0 ≤ oldTicks)
    (normal : oldTicks < newTicksPerSec * ratio) : 0 < ratio :=
  pos_of_mul_pos_right (nonneg.trans_lt normal) (Int.le_of_lt positive)

/-- The result is nearest to the exact value exactly if the ratio of the rates is even, or
the remainder is not its truncated half. -/
theorem toTicks_nearest_iff (positive : 0 < newTicksPerSec)
    (divides : newTicksPerSec ∣ oldTicksPerSec) (nonneg : 0 ≤ oldTicks)
    (normal : oldTicks < oldTicksPerSec)
    (value : toTicks secs oldTicks oldTicksPerSec newTicksPerSec = some result) :
    2 * |result * oldTicksPerSec - (secs * oldTicksPerSec + oldTicks) * newTicksPerSec| ≤
        oldTicksPerSec ↔
      oldTicksPerSec / newTicksPerSec % 2 = 0 ∨
        oldTicks % (oldTicksPerSec / newTicksPerSec) ≠ oldTicksPerSec / newTicksPerSec / 2 := by
  obtain ⟨ratio, rfl⟩ := divides
  have ratioPos := ratio_pos positive nonneg normal
  have eq := toTicks_eq positive ratioPos nonneg value
  have error : result * (newTicksPerSec * ratio) -
      (secs * (newTicksPerSec * ratio) + oldTicks) * newTicksPerSec =
        newTicksPerSec * (rounded ratio oldTicks * ratio - oldTicks) := by
    rw [eq]
    ring
  rw [Int.mul_ediv_cancel_left ratio (Int.ne_of_gt positive),
    ← rounded_nearest_iff ratioPos oldTicks, error, abs_mul, abs_of_pos positive, Int.mul_left_comm]
  exact mul_le_mul_iff_of_pos_left positive

end Ticks

/-- Half a millisecond is rounded up. -/
theorem toTicks_nearest_iff_halfMilli :
    2 * |(2000 : Int) * 1000000000 - (1 * 1000000000 + 999500000) * 1000| ≤ 1000000000 ↔
      (1000000000 : Int) / 1000 % 2 = 0 ∨
        (999500000 : Int) % (1000000000 / 1000) ≠ 1000000000 / 1000 / 2 :=
  toTicks_nearest_iff (by decide) (by decide) (by decide) (by decide) (by decide +kernel)

/-- Between equal rates a tick is added, and a third of a tick is rounded up. -/
theorem toTicks_overshoots :
    (Timeval.mk 1 5).toUsec = some 1000006 ∧
    ¬2 * |(1000006 : Int) * 1000000 - (1 * 1000000 + 5) * 1000000| ≤ 1000000 ∧
    toTicks 0 1 3 1 = some 1 ∧ ¬2 * |(1 : Int) * 3 - (0 * 3 + 1) * 1| ≤ 3 := by
  refine ⟨by decide +kernel, by decide, by decide +kernel, by decide⟩

/-! ## Order -/

/-- A clock reading: seconds, and ticks of less than a second. -/
structure Reading (ticksPerSec : Int) where
  secs : Int
  ticks : Int
  nonneg : 0 ≤ ticks
  normal : ticks < ticksPerSec

namespace Reading

variable {oldTicksPerSec newTicksPerSec : Int}

def toTicks (reading : Reading oldTicksPerSec) (newTicksPerSec : Int) : Option Int :=
  TimeUtil.toTicks reading.secs reading.ticks oldTicksPerSec newTicksPerSec

/-- The ticks since the epoch. -/
def total (reading : Reading oldTicksPerSec) : Int := reading.secs * oldTicksPerSec + reading.ticks

/-- Readings are ordered by their seconds, then by their ticks. -/
instance : LE (Reading oldTicksPerSec) where
  le a b := a.secs < b.secs ∨ a.secs = b.secs ∧ a.ticks ≤ b.ticks

theorem total_le {a b : Reading oldTicksPerSec} (le : a ≤ b) : a.total ≤ b.total := by
  unfold total
  rcases le with earlier | ⟨same, ticks⟩
  · have seconds := Int.mul_le_mul_of_nonneg_right (Int.add_one_le_of_lt earlier)
      (a.nonneg.trans (Int.le_of_lt a.normal))
    have rest := a.normal
    have start := b.nonneg
    rw [Int.add_mul, Int.one_mul] at seconds
    omega
  · rw [same]
    exact Int.add_le_add_left ticks _

/-- A conversion rounds the ticks since the epoch. -/
theorem toTicks_eq_total {reading : Reading oldTicksPerSec} {result : Int}
    (positive : 0 < newTicksPerSec) (divides : newTicksPerSec ∣ oldTicksPerSec)
    (value : reading.toTicks newTicksPerSec = some result) :
    result = rounded (oldTicksPerSec / newTicksPerSec) reading.total := by
  obtain ⟨secs, ticks, nonneg, normal⟩ := reading
  obtain ⟨ratio, rfl⟩ := divides
  have ratioPos := ratio_pos positive nonneg normal
  rw [Int.mul_ediv_cancel_left ratio (Int.ne_of_gt positive),
    toTicks_eq positive ratioPos nonneg value, total, ← Int.mul_assoc, rounded_mul_add ratioPos]

theorem toTicks_mono {a b : Reading oldTicksPerSec} {first second : Int}
    (positive : 0 < newTicksPerSec) (divides : newTicksPerSec ∣ oldTicksPerSec)
    (converted : a.toTicks newTicksPerSec = some first)
    (converted' : b.toTicks newTicksPerSec = some second) (le : a ≤ b) : first ≤ second := by
  have ratioPos : 0 < oldTicksPerSec / newTicksPerSec := by
    obtain ⟨ratio, rfl⟩ := divides
    rw [Int.mul_ediv_cancel_left ratio (Int.ne_of_gt positive)]
    exact ratio_pos positive a.nonneg a.normal
  rw [toTicks_eq_total positive divides converted, toTicks_eq_total positive divides converted']
  exact rounded_mono ratioPos (total_le le)

end Reading

/-- Conversions keep the order of readings, and an order of results is one of readings. -/
theorem toTicks_ordered {oldTicksPerSec newTicksPerSec : Int} (positive : 0 < newTicksPerSec)
    (divides : newTicksPerSec ∣ oldTicksPerSec) (a b : Reading oldTicksPerSec) {first second : Int}
    (converted : a.toTicks newTicksPerSec = some first)
    (converted' : b.toTicks newTicksPerSec = some second) :
    (a ≤ b → first ≤ second) ∧ (first < second → ¬b ≤ a) := by
  constructor
  · exact Reading.toTicks_mono positive divides converted converted'
  · intro less le
    exact Int.not_le.mpr less (Reading.toTicks_mono positive divides converted' converted le)

/-- The last microsecond of a second and the first of the next, in milliseconds. -/
theorem toTicks_ordered_carry :
    let a : Reading 1000000 := ⟨1, 999999, by decide, by decide⟩
    let b : Reading 1000000 := ⟨2, 0, by decide, by decide⟩
    a.toTicks 1000 = some 2000 ∧ b.toTicks 1000 = some 2000 ∧ a ≤ b ∧
      (a ≤ b → (2000 : Int) ≤ 2000) ∧ ((2000 : Int) < 2000 → ¬b ≤ a) := by
  intro a b
  have converted : a.toTicks 1000 = some 2000 := by decide +kernel
  have converted' : b.toTicks 1000 = some 2000 := by decide +kernel
  exact ⟨converted, converted', .inl (by decide),
    toTicks_ordered (by decide) (by decide) a b converted converted'⟩

/-- `CurrentTime` does not go back while the readings of `clock_gettime` do not. -/
theorem currentTime_mono {a b : Reading nsPerS} {first second : Int}
    (earlier : currentTime ⟨a.secs, a.ticks⟩ = some first)
    (later : currentTime ⟨b.secs, b.ticks⟩ = some second) (le : a ≤ b) : first ≤ second :=
  Reading.toTicks_mono (by decide) (by decide) earlier later le

/-! ## Round trips -/

/-- A whole number of milliseconds is not rounded. -/
theorem toTicks_whole {secs part unit : Int} (two : 2 ≤ unit) (narrow : Fits unit)
    (scaled : Fits (part * unit * 1000)) (small : Fits part) (whole : Fits (secs * 1000))
    (value : Fits (secs * 1000 + part)) :
    toTicks secs (part * unit) (1000 * unit) 1000 = some (secs * 1000 + part) := by
  have positive : 0 < unit := by omega
  have ticks : (part * unit * 1000).tdiv (1000 * unit) = part := by
    rw [Int.mul_assoc, Int.mul_comm unit]
    exact Int.mul_tdiv_cancel part (by omega)
  have ratio : (1000 * unit).tdiv 1000 = unit := Int.mul_tdiv_cancel_left unit (by decide)
  have quotient : (part * unit).tdiv unit = part := Int.mul_tdiv_cancel part (by omega)
  have left : (part * unit).tmod unit = 0 := Int.mul_tmod_left part unit
  have half : unit.tdiv 2 = unit / 2 := Int.tdiv_eq_ediv_of_nonneg (Int.le_of_lt positive)
  have halfFits : Fits (unit / 2) := by
    unfold Fits at *
    omega
  simp only [toTicks, Option.bind_eq_bind, Option.bind_eq_some_iff]
  refine ⟨secs * 1000, mul_eq_some.mpr ⟨whole, rfl⟩, part * unit * 1000,
    mul_eq_some.mpr ⟨scaled, rfl⟩, part, div_eq_some.mpr ⟨by omega, by rwa [ticks], ticks⟩,
    secs * 1000 + part, add_eq_some.mpr ⟨value, rfl⟩, unit,
    div_eq_some.mpr ⟨by decide, by rwa [ratio], ratio⟩, ?_⟩
  rw [if_pos (by omega), Option.bind_eq_some_iff]
  refine ⟨0, rem_eq_some.mpr ⟨by omega, by rwa [quotient], left⟩, ?_⟩
  rw [Option.bind_eq_some_iff]
  refine ⟨unit / 2, div_eq_some.mpr ⟨by decide, by rwa [half], half⟩, ?_⟩
  rw [if_neg (by omega)]
  rfl

/-- Every millisecond value comes back from a `timespec` and from a `timeval`, and nothing
overflows. -/
theorem millis_round_trip {ms : Int} (fits : Fits ms) :
    (toTimespec ms).bind Timespec.toMilliseconds = some ms ∧
      (toTimeval ms).bind Timeval.toMilliseconds = some ms := by
  obtain ⟨parts, low, high⟩ := parts_of_millis ms
  have whole : Fits (ms.tdiv msPerS * 1000) := by
    have sign := Int.tmod_nonneg (a := ms) msPerS
    have sign' := Int.tmod_nonneg (a := -ms) msPerS
    rw [Int.neg_tmod] at sign'
    unfold Fits msPerS at *
    omega
  have value : ms.tdiv msPerS * 1000 + ms.tmod msPerS = ms := by
    rw [Int.mul_comm]
    exact parts
  have back (unit : Int) (two : 2 ≤ unit) (narrow : Fits unit)
      (scaled : Fits (ms.tmod msPerS * unit * 1000)) :
      toTicks (ms.tdiv msPerS) (ms.tmod msPerS * unit) (1000 * unit) 1000 = some ms := by
    have small : Fits (ms.tmod msPerS) := by
      unfold Fits
      omega
    rw [toTicks_whole two narrow scaled small whole (by rwa [value]), value]
  constructor
  · rw [toTimespec_eq fits]
    apply back 1000000 (by decide) (by decide)
    unfold Fits
    omega
  · rw [toTimeval_eq fits]
    apply back 1000 (by decide) (by decide)
    unfold Fits
    omega

/-- The least value. -/
theorem millis_round_trip_min :
    (toTimespec (-2 ^ 63)).bind Timespec.toMilliseconds = some (-2 ^ 63) ∧
      (toTimeval (-2 ^ 63)).bind Timeval.toMilliseconds = some (-2 ^ 63) :=
  millis_round_trip (by decide)

end Threads.TimeUtil
