import Threads.Concurrency.Ledger
import Threads.Concurrency.Run
import Threads.SizeT

/-!
# `SplitterJobScheduler`

Clients hand jobs to `thread_manager_` and count them in `pending_job_count_`;
workers count them out. What the scheduler sees of its thread manager is a queue
that keeps its history: `Add` pushes, a worker takes the head.
-/

namespace Threads.Splitter

open Concurrency

/-- Where a thread stands. `owns` tells that a client has come back from
`monitor_.Wait()` with the mutex of `monitor_`, which it never gives back. -/
inductive Role where
  | client (owns : Bool)
  /-- In `AddSplitterJob`, before `thread_manager_->Add(job)`. -/
  | adding (owns : Bool)
  /-- The job is handed over and not yet counted. -/
  | handed (owns : Bool)
  /-- In `WaitAllJobDone`, at the test of `pending_job_count_`. -/
  | testing (owns : Bool)
  /-- The test has found jobs pending; `monitor_.Wait()` is next. -/
  | tested (owns : Bool)
  | parked
  | woken
  | worker
  /-- In `ObservableSplitterJob::Run`, before the locked block of `OnCompletedJob`. -/
  | splitting (job : Nat)
  deriving DecidableEq, Repr

inductive Event where
  | handed (job : Nat)
  | completed (job : Nat)
  /-- `WaitAllJobDone` returns. -/
  | returned
  deriving DecidableEq, Repr

/-- Jobs are named in the order they are handed over; the fate of a job taken off the
queue is the worker that runs it. -/
structure Scheduler where
  pendingJobCount : Nat := 0
  /-- The mutex of `monitor_` is owned by a client that has come back from its wait. -/
  locked : Bool := false
  jobs : Ledger Nat Unit := .empty

abbrev Effect := Outcome Scheduler Role Role Event Unit

inductive Act where
  | addSplitterJob
  | add
  | addThrows
  | count
  | waitAllJobDone
  | test
  | wait
  | resume
  | take
  | onCompletedJob
  deriving DecidableEq, Repr

namespace Scheduler

/-- `thread_manager_->Add(job)` -/
def push (s : Scheduler) : Scheduler :=
  { s with jobs :=
      s.jobs.advance [] [s.jobs.pushed.length] (s.jobs.queue ++ [s.jobs.pushed.length]) rfl }

/-- A worker takes the job at the head of the queue. -/
def pop (s : Scheduler) (job : Nat) (rest : List Nat) (queue : s.jobs.queue = job :: rest) :
    Scheduler :=
  { s with jobs := s.jobs.advance [(job, ())] [] rest (by simp [queue]) }

@[simp] theorem push_queue (s : Scheduler) :
    s.push.jobs.queue = s.jobs.queue ++ [s.jobs.pushed.length] := rfl

@[simp] theorem pop_queue (s : Scheduler) {job : Nat} {rest : List Nat}
    (queue : s.jobs.queue = job :: rest) : (s.pop job rest queue).jobs.queue = rest := rfl

end Scheduler

/-- A block that takes the mutex of `monitor_` runs only while it is free. -/
def schedulerBlock (s : Scheduler) : Role → Act → Option Effect
  | .client owns, .addSplitterJob => some { shared := s, self := .adding owns }
  | .adding owns, .add =>
    some { shared := s.push, self := .handed owns, events := [.handed s.jobs.pushed.length] }
  | .adding owns, .addThrows => some { shared := s, self := .client owns }
  | .handed owns, .count =>
    if s.locked then none
    else some {
      shared := { s with pendingJobCount := increment s.pendingJobCount }
      self := .client owns
      signals := [.notifyAll ()] }
  | .client owns, .waitAllJobDone => some { shared := s, self := .testing owns }
  | .testing owns, .test =>
    if s.pendingJobCount ≠ 0 then some { shared := s, self := .tested owns }
    else some { shared := s, self := .client owns, events := [.returned] }
  -- `Wait` gives up the mutex if the caller owns it
  | .tested owns, .wait =>
    some { shared := { s with locked := s.locked && !owns }, self := .parked }
  | .woken, .resume =>
    if s.locked then none else some { shared := { s with locked := true }, self := .testing true }
  | .worker, .take =>
    match queue : s.jobs.queue with
    | [] => none
    | job :: rest => some { shared := s.pop job rest queue, self := .splitting job }
  | .splitting job, .onCompletedJob =>
    if s.locked then none
    else some {
      shared := { s with pendingJobCount := decrement s.pendingJobCount }
      self := .worker
      signals := [.notifyAll ()]
      events := [.completed job] }
  | _, _ => none

def Role.waitsOn : Role → Option Unit
  | .parked => some ()
  | _ => none

def Role.wake : Role → Role
  | .parked => .woken
  | r => r

def scheduler : Program Scheduler Role Act Event Unit where
  waitsOn := Role.waitsOn
  wake := Role.wake
  wake_awake r := by cases r <;> rfl
  block := schedulerBlock

/-- A new scheduler with its workers and its clients. -/
def fresh (workers clients : Nat) : Config Scheduler Role Event where
  shared := {}
  threads := List.replicate workers .worker ++ List.replicate clients (.client false)

/-! ## What a step can do -/

inductive RoleStep (s : Scheduler) : Role → Act → Effect → Prop
  | begins {owns} : RoleStep s (.client owns) .addSplitterJob { shared := s, self := .adding owns }
  | hands {owns} :
      RoleStep s (.adding owns) .add
        { shared := s.push, self := .handed owns, events := [.handed s.jobs.pushed.length] }
  | throws {owns} : RoleStep s (.adding owns) .addThrows { shared := s, self := .client owns }
  | counts {owns} (free : s.locked = false) :
      RoleStep s (.handed owns) .count
        { shared := { s with pendingJobCount := increment s.pendingJobCount }
          self := .client owns
          signals := [.notifyAll ()] }
  | waits {owns} : RoleStep s (.client owns) .waitAllJobDone { shared := s, self := .testing owns }
  | findsPending {owns} (pending : s.pendingJobCount ≠ 0) :
      RoleStep s (.testing owns) .test { shared := s, self := .tested owns }
  | returns {owns} (zero : s.pendingJobCount = 0) :
      RoleStep s (.testing owns) .test { shared := s, self := .client owns, events := [.returned] }
  | parks {owns} :
      RoleStep s (.tested owns) .wait
        { shared := { s with locked := s.locked && !owns }, self := .parked }
  | resumes (free : s.locked = false) :
      RoleStep s .woken .resume { shared := { s with locked := true }, self := .testing true }
  | takes {job rest} (queue : s.jobs.queue = job :: rest) :
      RoleStep s .worker .take { shared := s.pop job rest queue, self := .splitting job }
  | completes {job} (free : s.locked = false) :
      RoleStep s (.splitting job) .onCompletedJob
        { shared := { s with pendingJobCount := decrement s.pendingJobCount }
          self := .worker
          signals := [.notifyAll ()]
          events := [.completed job] }

theorem roleStep_of_block {s : Scheduler} {r : Role} {a : Act} {o : Effect}
    (h : schedulerBlock s r a = some o) : RoleStep s r a o := by
  unfold schedulerBlock at h
  split at h
  case h_1 => obtain rfl := Option.some.inj h; exact .begins
  case h_2 => obtain rfl := Option.some.inj h; exact .hands
  case h_3 => obtain rfl := Option.some.inj h; exact .throws
  case h_4 =>
    split at h
    · cases h
    · obtain rfl := Option.some.inj h
      exact .counts (by simpa using ‹¬s.locked = true›)
  case h_5 => obtain rfl := Option.some.inj h; exact .waits
  case h_6 =>
    split at h
    · obtain rfl := Option.some.inj h
      exact .findsPending ‹_›
    · obtain rfl := Option.some.inj h
      exact .returns (not_not.mp ‹_›)
  case h_7 => obtain rfl := Option.some.inj h; exact .parks
  case h_8 =>
    split at h
    · cases h
    · obtain rfl := Option.some.inj h
      exact .resumes (by simpa using ‹¬s.locked = true›)
  case h_9 =>
    split at h
    · cases h
    · obtain rfl := Option.some.inj h
      exact .takes _
  case h_10 =>
    split at h
    · cases h
    · obtain rfl := Option.some.inj h
      exact .completes (by simpa using ‹¬s.locked = true›)
  case h_11 => cases h

theorem RoleStep.spawns_nothing {s : Scheduler} {r : Role} {a : Act} {o : Effect}
    (h : RoleStep s r a o) : o.spawned = [] := by
  cases h <;> rfl

theorem total_fresh (workers clients : Nat) {f : Role → Nat} (worker : f .worker = 0)
    (client : f (.client false) = 0) : total f (fresh workers clients).threads = 0 :=
  total_eq_zero.mpr fun r hr => by
    rcases List.mem_append.mp hr with hr | hr
    · rw [List.eq_of_mem_replicate hr, worker]
    · rw [List.eq_of_mem_replicate hr, client]

end Threads.Splitter
