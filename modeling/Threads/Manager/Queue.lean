import Mathlib.Algebra.Ring.Nat
import Mathlib.Data.List.Basic
import Mathlib.Data.Int.DivMod

/-!
# The task queue and its expiry pass

`ThreadManager::Task` and `ThreadManager::Impl::RemoveExpiredTasks`. A task has
an identity of its own: each `Add` allocates a fresh object, so one runnable can
be queued several times.
-/

namespace Threads.Manager

inductive TaskState where
  | waiting
  | executing
  | cancelled
  | complete
  deriving DecidableEq, Repr

structure Task where
  id : Nat
  runnable : Nat
  state : TaskState := .waiting
  expireTime : Int := 0
  deriving DecidableEq, Repr

/-- A 64-bit two's complement value. -/
def int64 (z : Int) : Int := z.bmod (2 ^ 64)

/-- The constructor `Task(runnable, expiration)` at clock reading `now`. -/
def Task.make (id runnable : Nat) (expiration now : Int) : Task where
  id := id
  runnable := runnable
  expireTime := if expiration ≠ 0 then int64 (now + expiration) else 0

/-- What a worker does to the task it takes off the queue. -/
def Task.begin (t : Task) : Task := if t.state = .waiting then { t with state := .executing } else t

@[simp] theorem Task.begin_id (t : Task) : t.begin.id = t.id := by
  unfold Task.begin
  split <;> rfl

/-- The task is expired at `now`. -/
def Task.expiredAt (t : Task) (now : Int) : Bool :=
  decide (t.expireTime ≠ 0) && decide (t.expireTime ≤ now)

/-- What an expiry pass meets outside the manager: `clock i` is the reading taken
at the `i`-th task, if one is taken there, and `raises` is the first task for which
the expire callback throws. -/
structure Surroundings where
  clock : Nat → Int
  raises : Option Nat := none

/-- `now` is read once; the value 0 also stands for "not read yet". -/
def Surroundings.now (env : Surroundings) (i : Nat) (now : Int) : Int :=
  if now = 0 then env.clock i else now

structure Expiry where
  expired : List Task
  rest : List Task
  raised : Bool := false

/-- The loop of `RemoveExpiredTasks`, at its `i`-th task with the local `now`. -/
def expirePass (callback : Bool) (env : Surroundings) : Nat → Int → List Task → Expiry
  | _, _, [] => ⟨[], [], false⟩
  | i, now, t :: ts =>
    if t.expireTime = 0 then ⟨[], t :: ts, false⟩
    else if t.expireTime > env.now i now then ⟨[], t :: ts, false⟩
    -- the callback runs before the pop: a task it throws for stays at the head
    else if callback && env.raises == some i then ⟨[], t :: ts, true⟩
    else
      let pass := expirePass callback env (i + 1) (env.now i now) ts
      { pass with expired := t :: pass.expired }

/-- A pass removes a prefix of the queue and keeps the rest in order. -/
theorem expirePass_append (callback : Bool) (env : Surroundings) (i : Nat) (now : Int)
    (ts : List Task) :
    (expirePass callback env i now ts).expired ++ (expirePass callback env i now ts).rest = ts := by
  induction ts generalizing i now with
  | nil => rfl
  | cons t ts ih =>
    unfold expirePass
    split
    · rfl
    · split
      · rfl
      · split
        · rfl
        · simp [ih]

/-- The task the callback throws for stays in the queue. -/
theorem expirePass_raised_rest {callback : Bool} {env : Surroundings} {i : Nat} {now : Int}
    {ts : List Task} (raised : (expirePass callback env i now ts).raised = true) :
    (expirePass callback env i now ts).rest ≠ [] := by
  induction ts generalizing i now with
  | nil => cases raised
  | cons t ts ih =>
    unfold expirePass at raised ⊢
    split at raised
    · cases raised
    · split at raised
      · cases raised
      · split at raised
        · rw [if_neg ‹_›, if_neg ‹_›, if_pos ‹_›]
          exact List.cons_ne_nil t ts
        · rw [if_neg ‹_›, if_neg ‹_›, if_neg ‹_›]
          exact ih raised

theorem expirePass_not_raised {callback : Bool} {env : Surroundings}
    (calm : env.raises = none) (i : Nat) (now : Int) (ts : List Task) :
    (expirePass callback env i now ts).raised = false := by
  induction ts generalizing i now with
  | nil => rfl
  | cons t ts ih =>
    unfold expirePass
    split
    · rfl
    · split
      · rfl
      · simp [calm, ih]

end Threads.Manager
