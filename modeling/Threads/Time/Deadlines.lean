import Threads.Time.TimeUtil

/-!
# Deadlines of timed locks and timed waits

`Guard`, `Mutex::TimedLock` and `Monitor::Wait` turn a timeout into an absolute time. The
reading of `CurrentTime` is a parameter.
-/

namespace Threads.Time

open Checked TimeUtil

/-- How a `Guard` asks for its mutex. -/
inductive Acquire where
  | lock
  | tryLock
  | timedLock (abstime : Timespec)
  deriving DecidableEq

/-- How a monitor waits. -/
inductive Wait where
  | forever
  | untilTime (abstime : Timespec)
  deriving DecidableEq

/-- `Mutex::Impl::TimedLock(int)`: what is passed to `pthread_mutex_timedlock`. -/
def Mutex.implTimedLock (clock milliseconds : Int) : Option Timespec := do
  let sum ← add milliseconds clock
  toTimespec sum

/-- `Mutex::TimedLock(int64_t)` -/
def Mutex.timedLock (clock ms : Int) : Option Timespec := Mutex.implTimedLock clock (toInt ms)

def Guard.acquire (clock timeout : Int) : Option Acquire :=
  if timeout = 0 then some .lock
  else if timeout < 0 then some .tryLock
  else (Mutex.timedLock clock timeout).map .timedLock

def Monitor.waitForTimeRelative (clock timeoutMs : Int) : Option Wait :=
  if timeoutMs = 0 then some .forever
  else do
    let sum ← add clock timeoutMs
    let abstime ← toTimespec sum
    return .untilTime abstime

/-- `Monitor::Wait(timeout)` -/
def Monitor.wait (clock timeout : Int) : Option Wait := Monitor.waitForTimeRelative clock timeout

/-! ## The deadline of a timeout -/

/-- The nanoseconds that a `timespec` denotes. -/
def nanos (abstime : Timespec) : Int := abstime.tvSec * nsPerS + abstime.tvNsec

/-- A `timespec` denotes the milliseconds it was made from. -/
theorem nanos_toTimespec {value : Int} (fits : Fits value) :
    ∃ abstime, toTimespec value = some abstime ∧ nanos abstime = value * 1000000 := by
  obtain ⟨parts, -⟩ := parts_of_millis value
  refine ⟨_, toTimespec_eq fits, ?_⟩
  unfold nanos nsPerS
  unfold msPerS at *
  dsimp only
  omega

/-- A `timespec` of a time since the epoch is normalized. -/
theorem normal_toTimespec {value : Int} (fits : Fits value) (epoch : 0 ≤ value) {abstime : Timespec}
    (made : toTimespec value = some abstime) :
    0 ≤ abstime.tvNsec ∧ abstime.tvNsec < 1000000000 := by
  rw [toTimespec_eq fits] at made
  obtain rfl := Option.some.inj made
  obtain ⟨-, -, high⟩ := parts_of_millis value
  have low := Int.tmod_nonneg msPerS epoch
  dsimp only
  omega

/-- A guard and a wait with this timeout have the same deadline, and it is the exact one. -/
def SameDeadline (clock timeout : Int) : Prop :=
  ∃ abstime, Mutex.timedLock clock timeout = some abstime ∧
    Guard.acquire clock timeout = some (.timedLock abstime) ∧
    Monitor.wait clock timeout = some (.untilTime abstime) ∧
    nanos abstime = (clock + timeout) * 1000000 ∧
    0 ≤ abstime.tvNsec ∧ abstime.tvNsec < 1000000000

theorem wait_of_pos {clock timeout : Int} (positive : 0 < timeout) (fits : Fits (clock + timeout)) :
    Monitor.wait clock timeout = (toTimespec (clock + timeout)).map .untilTime := by
  unfold Monitor.wait Monitor.waitForTimeRelative
  rw [if_neg (Int.ne_of_gt positive), add_eq_some.mpr ⟨fits, rfl⟩]
  exact (Option.map_eq_bind ..).symm

theorem timedLock_eq {clock timeout : Int} (fits : Fits (toInt timeout + clock)) :
    Mutex.timedLock clock timeout = toTimespec (toInt timeout + clock) := by
  unfold Mutex.timedLock Mutex.implTimedLock
  rw [add_eq_some.mpr ⟨fits, rfl⟩]
  rfl

/-- The two deadlines agree exactly for timeouts that an `int` holds. -/
theorem same_deadline_iff {clock timeout : Int} (epoch : 0 ≤ clock) (positive : 0 < timeout)
    (fits : Fits (clock + timeout)) : SameDeadline clock timeout ↔ timeout < 2 ^ 31 := by
  have least := toInt_ge timeout
  constructor
  · rintro ⟨abstime, locked, -, -, exactly, -⟩
    apply Int.lt_of_not_ge
    intro long
    have less := toInt_lt long
    have narrow : Fits (toInt timeout + clock) := by
      unfold Fits at *
      omega
    obtain ⟨made, eq, denotes⟩ := nanos_toTimespec narrow
    rw [timedLock_eq narrow, eq] at locked
    obtain rfl := Option.some.inj locked
    omega
  · intro short
    have same := toInt_eq_self (by omega) short
    have narrow : Fits (toInt timeout + clock) := by
      rw [same, Int.add_comm]
      exact fits
    obtain ⟨made, eq, denotes⟩ := nanos_toTimespec fits
    have locked : Mutex.timedLock clock timeout = some made := by
      rw [timedLock_eq narrow, same, Int.add_comm]
      exact eq
    refine ⟨made, locked, ?_, ?_, denotes, normal_toTimespec fits (by omega) eq⟩
    · unfold Guard.acquire
      rw [if_neg (Int.ne_of_gt positive), if_neg (Int.not_lt.mpr (Int.le_of_lt positive)), locked]
      rfl
    · rw [wait_of_pos positive fits, eq]
      rfl

/-- A timeout of a second. -/
theorem same_deadline_iff_second : SameDeadline 1700000000000 1000 ↔ (1000 : Int) < 2 ^ 31 :=
  same_deadline_iff (by decide) (by decide) (by decide)

/-- A timed lock of 2³² ms has no time at all, and one of 2³¹ ms a deadline that is past. -/
theorem timedLock_gives_up_early :
    ¬SameDeadline 1700000000000 (2 ^ 32) ∧
    Mutex.timedLock 1700000000000 (2 ^ 32) = some ⟨1700000000, 0⟩ ∧
    Monitor.wait 1700000000000 (2 ^ 32) = some (.untilTime ⟨1704294967, 296000000⟩) ∧
    Mutex.timedLock 1700000000000 (2 ^ 31) = some ⟨1697852516, 352000000⟩ := by
  refine ⟨?_, by decide +kernel, by decide +kernel, by decide +kernel⟩
  rintro ⟨abstime, locked, -, -, denotes, -⟩
  obtain rfl : (⟨1700000000, 0⟩ : Timespec) = abstime :=
    Option.some.inj ((show Mutex.timedLock 1700000000000 (2 ^ 32) = some ⟨1700000000, 0⟩ by
      decide +kernel).symm.trans locked)
  exact absurd denotes (by decide)

end Threads.Time
