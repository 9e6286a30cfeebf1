import Threads.Checked

/-!
# `base::TimeUtil`

The conversions between ticks of different rates, `timespec`, `timeval` and milliseconds.
Ticks per second are parameters of `ToTicks`; its callers pass the constants.
-/

namespace Threads.TimeUtil

open Checked

def nsPerS : Int := 1000000000
def usPerS : Int := 1000000
def msPerS : Int := 1000

def nsPerMs : Int := nsPerS.tdiv msPerS
def usPerMs : Int := usPerS.tdiv msPerS

structure Timespec where
  tvSec : Int
  tvNsec : Int
  deriving DecidableEq, Repr

structure Timeval where
  tvSec : Int
  tvUsec : Int
  deriving DecidableEq, Repr

def toTimespec (value : Int) : Option Timespec := do
  let sec ← div value msPerS
  let ms ← rem value msPerS
  let nsec ← mul ms nsPerMs
  return ⟨sec, nsec⟩

def toTimeval (value : Int) : Option Timeval := do
  let sec ← div value msPerS
  let ms ← rem value msPerS
  let usec ← mul ms usPerMs
  return ⟨sec, usec⟩

def toTicks (secs oldTicks oldTicksPerSec newTicksPerSec : Int) : Option Int := do
  let whole ← mul secs newTicksPerSec
  let scaled ← mul oldTicks newTicksPerSec
  let part ← div scaled oldTicksPerSec
  let result ← add whole part
  let oldPerNew ← div oldTicksPerSec newTicksPerSec
  if oldPerNew ≠ 0 then
    let left ← rem oldTicks oldPerNew
    let half ← div oldPerNew 2
    if left ≥ half then add result 1 else return result
  else return result

def Timespec.toTicks (value : Timespec) (ticksPerSec : Int) : Option Int :=
  TimeUtil.toTicks value.tvSec value.tvNsec nsPerS ticksPerSec

def Timeval.toTicks (value : Timeval) (ticksPerSec : Int) : Option Int :=
  TimeUtil.toTicks value.tvSec value.tvUsec usPerS ticksPerSec

def Timespec.toMilliseconds (value : Timespec) : Option Int := value.toTicks msPerS

def Timeval.toMilliseconds (value : Timeval) : Option Int := value.toTicks msPerS

def Timespec.toUsec (value : Timespec) : Option Int := value.toTicks usPerS

def Timeval.toUsec (value : Timeval) : Option Int := value.toTicks usPerS

/-- `CurrentTimeTicks`, when `clock_gettime` has read `now`. -/
def currentTimeTicks (now : Timespec) (ticksPerSec : Int) : Option Int := now.toTicks ticksPerSec

def currentTime (now : Timespec) : Option Int := currentTimeTicks now msPerS

/-! ## What the conversions compute -/

/-- A millisecond value is split into seconds and a rest of its sign. -/
theorem parts_of_millis (value : Int) :
    msPerS * value.tdiv msPerS + value.tmod msPerS = value ∧ -1000 < value.tmod msPerS ∧
      value.tmod msPerS < 1000 :=
  ⟨Int.mul_tdiv_add_tmod value msPerS, Int.lt_tmod_of_pos value (by decide),
    Int.tmod_lt_of_pos value (by decide)⟩

theorem split_millis {value : Int} (fits : Fits value) :
    div value msPerS = some (value.tdiv msPerS) ∧ rem value msPerS = some (value.tmod msPerS) := by
  have seconds : Fits (value.tdiv msPerS) := fits_tdiv fits (by decide)
  exact ⟨div_eq_some.mpr ⟨by decide, seconds, rfl⟩, rem_eq_some.mpr ⟨by decide, seconds, rfl⟩⟩

theorem toTimespec_eq {value : Int} (fits : Fits value) :
    toTimespec value = some ⟨value.tdiv msPerS, value.tmod msPerS * 1000000⟩ := by
  obtain ⟨-, low, high⟩ := parts_of_millis value
  obtain ⟨sec, ms⟩ := split_millis fits
  have nanos : Fits (value.tmod msPerS * 1000000) := by
    unfold Fits
    omega
  have nsec : mul (value.tmod msPerS) nsPerMs = some (value.tmod msPerS * 1000000) :=
    mul_eq_some.mpr ⟨nanos, rfl⟩
  unfold toTimespec
  rw [sec, ms]
  simp [nsec]

theorem toTimeval_eq {value : Int} (fits : Fits value) :
    toTimeval value = some ⟨value.tdiv msPerS, value.tmod msPerS * 1000⟩ := by
  obtain ⟨-, low, high⟩ := parts_of_millis value
  obtain ⟨sec, ms⟩ := split_millis fits
  have micros : Fits (value.tmod msPerS * 1000) := by
    unfold Fits
    omega
  have usec : mul (value.tmod msPerS) usPerMs = some (value.tmod msPerS * 1000) :=
    mul_eq_some.mpr ⟨micros, rfl⟩
  unfold toTimeval
  rw [sec, ms]
  simp [usec]

end Threads.TimeUtil
