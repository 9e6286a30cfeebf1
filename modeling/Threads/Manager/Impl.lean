import Threads.Concurrency.Program
import Threads.Manager.Queue
import Threads.SizeT

/-!
# The state of a thread manager

The members of `ThreadManager::Impl`, and where a thread stands: in
`Worker::Run`, in a call of a public operation, or in a call made by the task a
worker runs.
-/

namespace Threads.Manager

open Concurrency

/-- `ThreadManager::STATE` -/
inductive State where
  | uninitialized
  | starting
  | started
  | joining
  | stopping
  | stopped
  deriving DecidableEq, Repr

inductive Exception where
  | invalidArgument
  | illegalState (message : String)
  | timedOut
  | tooManyPendingTasks
  | callback
  deriving DecidableEq, Repr

/-- `monitor_`, `max_monitor_` (both on `mutex_`) and `worker_monitor_`. -/
inductive Cond where
  | monitor
  | maxMonitor
  | workerMonitor
  deriving DecidableEq, Repr

/-- A thread object; `id` is its `GetId()`, the pthread it was started as. -/
structure ThreadRef where
  object : Nat
  id : Nat
  deriving DecidableEq, Repr

/-- The `size_t` members are natural numbers: a unit of each stands for a thread or
a task object of the process. Where the source decrements one, `decrement` wraps. -/
structure Impl where
  workerCount : Nat := 0
  workerMaxCount : Nat := 0
  idleCount : Nat := 0
  pendingTaskCountMax : Nat := 0
  expiredCount : Nat := 0
  expireCallback : Bool := false
  state : State := .uninitialized
  threadFactory : Bool := false
  tasks : List Task := []
  workers : List Nat := []
  deadWorkers : List ThreadRef := []
  idMap : List ThreadRef := []
  -- fresh identities for `make_shared<Task>` and `NewThread`
  taskAllocs : Nat := 0
  threadAllocs : Nat := 0
  -- an exception left a thread: `std::terminate` has ended the process
  terminated : Bool := false

/-- Where a thread stands in `Worker::Run`. -/
inductive Worker where
  /-- Not a worker thread. -/
  | absent
  | entry
  /-- Its increment made the pool complete; it has still to notify `worker_monitor_`. -/
  | announce
  | loop
  | parked
  | woken
  | holding (t : Task)
  | running (t : Task)
  /-- Out of the loop, before the exit block; `activated` is what the entry block found. -/
  | leaving (activated : Bool)
  | finished
  /-- An exception has left `Run`. -/
  | escaped
  deriving DecidableEq, Repr

/-- The arguments of an `Add` call. -/
structure Request where
  value : Nat
  timeout : Int := 0
  expiration : Int := 0
  deriving DecidableEq, Repr

/-- Who called `RemoveWorker`. -/
inductive Caller where
  | client
  | stopImpl (join : Bool)
  deriving DecidableEq, Repr

/-- Where a thread stands in a public operation. The option in `start`,
`startParked` and `startWoken` is the worker count of a `SimpleThreadManager`,
whose `Start` goes on to `AddWorker`. -/
inductive Call where
  | none
  | simpleStart (workers pendingMax : Nat)
  | testStopped (workers : Nat)
  | start (workers : Option Nat)
  | startParked (workers : Option Nat)
  | startWoken (workers : Option Nat)
  | newThreads (value : Nat)
  | addWorker (objects : List Nat)
  | startThreads (objects : List Nat)
  | register (thread : ThreadRef) (objects : List Nat)
  | awaitAdded
  | addedParked
  | removeWorker (value : Nat) (caller : Caller)
  | awaitRemoved (caller : Caller)
  | removedParked (caller : Caller)
  | stopImpl (join : Bool)
  | readCount (join : Bool)
  | finishStop (join doStop : Bool)
  | addParked (r : Request)
  | addWoken (r : Request)
  deriving DecidableEq, Repr

/-- A thread that is free to call the manager: a client, or a worker inside a task. -/
def Worker.makesCalls : Worker → Bool
  | .absent | .running _ => true
  | _ => false

/-- A thread of the process. A client thread only makes calls; a worker thread
makes them from inside the task it runs. -/
structure Thread where
  ref : ThreadRef
  worker : Worker := .absent
  call : Call := .none
  calm : worker.makesCalls = true ∨ call = .none := by decide
  deriving DecidableEq

inductive Operation where
  | start
  | addWorker
  | removeWorker
  | stop
  | join
  | add
  | remove
  | removeNextPending
  | removeExpiredTasks
  deriving DecidableEq, Repr

def Operation.ofJoin (join : Bool) : Operation := if join then .join else .stop

/-- The history of a run. Tasks are named by their identity. -/
inductive Event where
  | pushed (task : Nat)
  | dequeued (task : Nat)
  | ran (task : Nat)
  | finished (task : Nat) (raised : Bool)
  | calledBack (task : Nat)
  | expired (task : Nat) (callback : Bool)
  | withdrawn (task runnable : Nat)
  | counted (expired : Nat)
  | became (state : State)
  | left
  | returned (op : Operation)
  | threw (op : Operation) (e : Exception)
  deriving DecidableEq, Repr

abbrev Effect (Self : Type) := Outcome Impl Self Thread Event Cond

namespace Impl

/-- `Worker::IsActive` -/
def isActive (s : Impl) : Bool :=
  decide (s.workerCount ≤ s.workerMaxCount) || (s.state == .joining && !s.tasks.isEmpty)

theorem isActive_iff (s : Impl) :
    s.isActive = true ↔ s.workerCount ≤ s.workerMaxCount ∨ s.state = .joining ∧ s.tasks ≠ [] := by
  simp [isActive]

theorem not_isActive_iff (s : Impl) :
    s.isActive = false ↔
      s.workerMaxCount < s.workerCount ∧ (s.state = .joining → s.tasks = []) := by
  simp [isActive]

/-- The queue has reached `pending_task_count_max_`. -/
def full (s : Impl) : Bool :=
  decide (0 < s.pendingTaskCountMax) && decide (s.pendingTaskCountMax ≤ s.tasks.length)

/-- `CanSleep()` on the thread `id`. -/
def canSleep (s : Impl) (id : Nat) : Bool := !s.idMap.any (fun t => t.id == id)

/-- The pass that `RemoveExpiredTasks` makes over the queue. -/
def expiry (s : Impl) (env : Surroundings) : Expiry := expirePass s.expireCallback env 0 0 s.tasks

def removeExpiredTasks (s : Impl) (env : Surroundings) : Impl :=
  { s with
    tasks := (s.expiry env).rest
    expiredCount := s.expiredCount + (s.expiry env).expired.length }

/-- The calls of the callback and the pops of one pass, in order. -/
def expiryEvents (s : Impl) (env : Surroundings) : List Event :=
  (s.expiry env).expired.flatMap (fun t =>
    if s.expireCallback then [.calledBack t.id, .expired t.id true] else [.expired t.id false]) ++
  if (s.expiry env).raised then ((s.expiry env).rest.take 1).map (fun t => .calledBack t.id) else []

theorem mem_expiryEvents {s : Impl} {env : Surroundings} {e : Event} (h : e ∈ s.expiryEvents env) :
    (∃ t, e = .calledBack t) ∨ ∃ t callback, e = .expired t callback := by
  unfold expiryEvents at h
  rcases List.mem_append.mp h with h | h
  · obtain ⟨t, -, h⟩ := List.mem_flatMap.mp h
    split at h
    · rcases List.mem_pair.mp h with rfl | rfl
      · exact .inl ⟨_, rfl⟩
      · exact .inr ⟨_, _, rfl⟩
    · exact .inr ⟨_, _, List.mem_singleton.mp h⟩
  · split at h
    · obtain ⟨t, -, rfl⟩ := List.mem_map.mp h
      exact .inl ⟨_, rfl⟩
    · simp at h

end Impl

end Threads.Manager
