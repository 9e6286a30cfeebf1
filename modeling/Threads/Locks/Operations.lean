import Threads.Concurrency.Locking
import Threads.Manager.Calls

/-!
# The operations and their locks

`Worker::Run`, the operations of `ThreadManager::Impl` and `SimpleThreadManager`,
and those of `SplitterJobScheduler`, statement by statement, with the scopes of
their `Guard` and `Synchronized` objects. The scheduler's thread manager is the
manager of the model.
-/

namespace Threads.Locks

open Concurrency Manager

/-- `mutex_`, the mutex of `worker_monitor_` and the mutex of the scheduler's `monitor_`. -/
inductive Mutex where
  | manager
  | worker
  | scheduler
  deriving DecidableEq, Repr

inductive Cond where
  | monitor
  | maxMonitor
  | workerMonitor
  /-- `monitor_` of `SplitterJobScheduler`. -/
  | jobMonitor
  deriving DecidableEq, Repr

def mutexOf : Cond → Mutex
  | .monitor | .maxMonitor => .manager
  | .workerMonitor => .worker
  | .jobMonitor => .scheduler

structure Data where
  manager : Impl := {}
  pendingJobCount : Nat := 0

/-- The locals of a call; `self` is the thread that makes it. -/
structure Local where
  self : ThreadRef := ⟨0, 0⟩
  active : Bool := false
  notifyManager : Bool := false
  task : Option Task := none
  doStop : Bool := false
  value : Nat := 0
  newThreads : List Nat := []
  thread : ThreadRef := ⟨0, 0⟩
  now : Int := 0
  /-- The loop of `RemoveExpiredTasks` has not met a `break`. -/
  scanning : Bool := false
  -- return values
  count : Nat := 0
  found : Bool := false
  state : State := .uninitialized
  runnable : Option Nat := none

/-- What a statement may get from outside: a reading of the clock, or the pthread that
`pthread_create` has made. -/
structure Env where
  clock : Int := 0
  created : Option Nat := none

inductive Op where
  | workerRun
  | start
  | simpleStart (workerCount pendingTaskCountMax : Nat)
  | stop
  | join
  | getState
  | getThreadFactory
  | setThreadFactory (value : Bool)
  | addWorker (value : Nat)
  | removeWorker (value : Nat)
  | idleWorkerCount
  | workerCount
  | pendingTaskCount
  | totalTaskCount
  | pendingTaskCountMax
  | expiredTaskCount
  | add (r : Request)
  | remove (task : Nat)
  | removeNextPending
  | removeExpiredTasks
  | setExpireCallback (value : Bool)
  | setPendingTaskCountMax (value : Nat)
  | canSleep
  | newScheduler (numWorkers pendingJobMaxCount : Nat)
  | addSplitterJob (job : Nat)
  | onCompletedJob
  | waitAllJobDone
  | createSplitterJob
  | setSplitterJobFactory
  deriving DecidableEq, Repr

abbrev Command := Cmd Mutex Cond Data Local Env Op

/-! ## Statements -/

def update (f : Impl → Local → Impl) : Command :=
  .act fun _ d l => ({ d with manager := f d.manager l }, l)

def assign (f : Impl → Local → Local) : Command := .act fun _ d l => (d, f d.manager l)

def notify (k : Cond) : Command := .signal fun _ _ => [.notify k]

def notifyAll (k : Cond) : Command := .signal fun _ _ => [.notifyAll k]

def test (p : Impl → Local → Bool) : Data → Local → Bool := fun d l => p d.manager l

/-! ## RemoveExpiredTasks -/

/-- `task->GetExpireTime()` of the task at the front. -/
def frontExpireTime (s : Impl) : Int := (s.tasks.head?.map Task.expireTime).getD 0

def removeExpiredTasks : Command := .block [
  assign fun _ l => { l with now := 0, scanning := true },
  .loop (test fun s l => l.scanning && !s.tasks.isEmpty) (.block [
    .whenever (test fun s _ => frontExpireTime s = 0)
      [assign fun _ l => { l with scanning := false }],
    .whenever (test fun _ l => l.scanning) [
      .whenever (test fun _ l => l.now = 0) [.act fun e d l => (d, { l with now := e.clock })],
      .whenever (test fun s l => frontExpireTime s > l.now)
        [assign fun _ l => { l with scanning := false }],
      .whenever (test fun _ l => l.scanning) [
        .whenever (test fun s _ => s.expireCallback) [.foreign],
        update fun s _ => { s with tasks := s.tasks.tail, expiredCount := s.expiredCount + 1 }]]])]

/-! ## Worker::Run -/

def iteration : Command := .block [
  assign fun _ l => { l with task := none },
  .synchronized .manager [
    assign fun s l => { l with active := s.isActive },
    .loop (test fun s l => l.active && s.tasks.isEmpty) (.block [
      update fun s _ => { s with idleCount := s.idleCount + 1 },
      .wait .monitor,
      assign fun s l => { l with active := s.isActive },
      update fun s _ => { s with idleCount := decrement s.idleCount }]),
    .whenever (test fun _ l => l.active) [
      removeExpiredTasks,
      .whenever (test fun s _ => !s.tasks.isEmpty) [
        assign fun s l => { l with task := s.tasks.head?.map Task.begin },
        update fun s _ => { s with tasks := s.tasks.tail }],
      .whenever (test fun s _ => s.pendingTaskCountMax ≠ 0 &&
          decide (s.tasks.length ≤ s.pendingTaskCountMax - 1)) [notify .maxMonitor]]],
  .whenever (test fun _ l => l.task.any fun t => t.state == .executing) [
    .attempt (.block [
      .foreign,
      assign fun _ l => { l with task := l.task.map fun t => { t with state := .complete } }])]]

def workerRun : Command := .block [
  assign fun _ l => { l with active := false, notifyManager := false },
  .synchronized .manager [
    assign fun s l => { l with active := decide (s.workerCount < s.workerMaxCount) },
    .whenever (test fun _ l => l.active) [
      update fun s _ => { s with workerCount := s.workerCount + 1 },
      assign fun s l => { l with notifyManager := decide (s.workerCount = s.workerMaxCount) }]],
  .whenever (test fun _ l => l.notifyManager) [.synchronized .worker [notify .workerMonitor]],
  .loop (test fun _ l => l.active) iteration,
  .synchronized .worker [
    update fun s l => { s with
      deadWorkers := s.deadWorkers ++ [l.self]
      workerCount := decrement s.workerCount },
    .whenever (test fun s _ => s.workerCount = s.workerMaxCount) [notify .workerMonitor]]]

/-! ## ThreadManager::Impl -/

/-- `while (worker_count_ != worker_max_count_) worker_monitor_.Wait();` -/
def awaitWorkers : Command :=
  .loop (test fun s _ => s.workerCount ≠ s.workerMaxCount) (.wait .workerMonitor)

/-- `AddWorker(value)`, with `value` in the locals. -/
def addWorker : Command := .block [
  .whenever (test fun s l => !s.threadFactory && l.value ≠ 0) [.crash],
  assign fun s l => { l with newThreads := List.range' s.threadAllocs l.value },
  update fun s l => { s with threadAllocs := s.threadAllocs + l.value },
  .synchronized .manager [
    update fun s l => { s with
      workerMaxCount := s.workerMaxCount + l.value
      workers := s.workers ++ l.newThreads }],
  .loop (test fun _ l => !l.newThreads.isEmpty) (.block [
    .act fun e d l => (d, { l with
      thread := ⟨l.newThreads.headD 0, e.created.getD 0⟩
      found := e.created.isSome }),
    .whenever (test fun _ l => l.found) [.spawn (fun l => { self := l.thread }) .workerRun],
    update fun s l => { s with
      idMap :=
        if s.idMap.any (fun t => t.id == l.thread.id) then s.idMap else s.idMap ++ [l.thread] },
    assign fun _ l => { l with newThreads := l.newThreads.tail }]),
  .synchronized .worker [awaitWorkers]]

def start : Command :=
  .whenever (test fun s _ => s.state ≠ .stopped) [
    .synchronized .manager [
      .whenever (test fun s _ => s.state = .uninitialized) [
        .whenever (test fun s _ => !s.threadFactory) [.raise],
        update fun s _ => { s with state := .started },
        notifyAll .monitor],
      .loop (test fun s _ => s.state = .starting) (.wait .monitor)]]

/-- `RemoveWorker(value)`, with `value` in the locals. -/
def removeWorker : Command := .block [
  .synchronized .manager [
    .whenever (test fun s l => decide (l.value > s.workerMaxCount)) [.raise],
    update fun s l => { s with workerMaxCount := s.workerMaxCount - l.value },
    .ite (test fun s l => decide (s.idleCount < l.value))
      (.signal fun d _ => List.replicate d.manager.idleCount (.notify .monitor))
      (notifyAll .monitor)],
  .synchronized .worker [awaitWorkers, update fun s _ => collectDead s]]

def stopImpl (join : Bool) : Command := .block [
  assign fun _ l => { l with doStop := false },
  .whenever (test fun s _ => s.state ≠ .stopped) [
    .synchronized .manager [
      .whenever (test fun s _ => s.state ≠ .stopping && s.state ≠ .joining && s.state ≠ .stopped) [
        assign fun _ l => { l with doStop := true },
        update fun s _ => { s with state := if join then .joining else .stopping }]],
    .whenever (test fun _ l => l.doStop) [
      assign fun s l => { l with value := s.workerCount },
      removeWorker],
    .synchronized .manager [update fun s _ => { s with state := .stopped }]]]

/-- `CanSleep()` -/
def canSleep : Command := .block [
  .whenever (test fun s _ => !s.threadFactory) [.crash],
  assign fun s l => { l with found := s.canSleep l.self.id }]

def add (r : Request) : Command :=
  .guard .manager (fun _ => r.timeout ≠ 0) .raise (.block [
    .whenever (test fun s _ => s.state ≠ .started) [.raise],
    removeExpiredTasks,
    .whenever (test fun s _ => s.full) [
      canSleep,
      .ite (test fun _ l => l.found && decide (0 ≤ r.timeout))
        (.loop (test fun s _ => s.full) (.wait .maxMonitor))
        .raise],
    .act fun e d l => ({ d with manager := pushed d.manager r e.clock }, l),
    .whenever (test fun s _ => decide (0 < s.idleCount)) [notify .monitor]])

def remove : Command :=
  .synchronized .manager [.whenever (test fun s _ => s.state ≠ .started) [.raise]]

def removeNextPending : Command :=
  .synchronized .manager [
    .whenever (test fun s _ => s.state = .started) [.raise],
    assign fun s l => { l with runnable := s.tasks.head?.map Task.runnable },
    update fun s _ => { s with tasks := s.tasks.tail }]

/-- A member read under `mutex_`. -/
def counter (read : Impl → Nat) : Command :=
  .synchronized .manager [assign fun s l => { l with count := read s }]

def workerCount : Command := counter Impl.workerCount

def pendingTaskCount : Command := counter fun s => s.tasks.length

def totalTaskCount : Command :=
  counter fun s => asSize (s.tasks.length + s.workerCount + (2 ^ 64 - s.idleCount))

def pendingTaskCountMax : Command := counter Impl.pendingTaskCountMax

def expiredTaskCount : Command :=
  .synchronized .manager [
    assign fun s l => { l with count := s.expiredCount },
    update fun s _ => { s with expiredCount := 0 }]

def getThreadFactory : Command :=
  .synchronized .manager [assign fun s l => { l with found := s.threadFactory }]

def setThreadFactory (value : Bool) : Command :=
  .synchronized .manager [update fun s _ => { s with threadFactory := value }]

def setPendingTaskCountMax (value : Nat) : Command :=
  .synchronized .manager [update fun s _ => { s with pendingTaskCountMax := value }]

/-- `SimpleThreadManager::Start` -/
def simpleStart (workerCount pendingTaskCountMax : Nat) : Command := .block [
  setPendingTaskCountMax pendingTaskCountMax,
  start,
  assign fun _ l => { l with value := workerCount },
  addWorker]

/-! ## SplitterJobScheduler -/

def addSplitterJob (job : Nat) : Command := .block [
  add { value := job },
  .synchronized .scheduler [
    .act fun _ d l => ({ d with pendingJobCount := increment d.pendingJobCount }, l),
    notifyAll .jobMonitor]]

def onCompletedJob : Command :=
  .synchronized .scheduler [
    .act fun _ d l => ({ d with pendingJobCount := decrement d.pendingJobCount }, l),
    notifyAll .jobMonitor]

def jobsPending (d : Data) (_ : Local) : Bool := d.pendingJobCount ≠ 0

/-- The braces around the loop declare no `Synchronized`. -/
def waitAllJobDone : Command := .loop jobsPending (.wait .jobMonitor)

def operation : Op → Command
  | .workerRun => workerRun
  | .start => start
  | .simpleStart workerCount pendingTaskCountMax => simpleStart workerCount pendingTaskCountMax
  | .stop => stopImpl false
  | .join => stopImpl true
  | .getState => assign fun s l => { l with state := s.state }
  | .getThreadFactory => getThreadFactory
  | .setThreadFactory value => setThreadFactory value
  | .addWorker value => .block [assign fun _ l => { l with value := value }, addWorker]
  | .removeWorker value => .block [assign fun _ l => { l with value := value }, removeWorker]
  | .idleWorkerCount => assign fun s l => { l with count := s.idleCount }
  | .workerCount => workerCount
  | .pendingTaskCount => pendingTaskCount
  | .totalTaskCount => totalTaskCount
  | .pendingTaskCountMax => pendingTaskCountMax
  | .expiredTaskCount => expiredTaskCount
  | .add r => add r
  | .remove _ => remove
  | .removeNextPending => removeNextPending
  | .removeExpiredTasks => removeExpiredTasks
  | .setExpireCallback value => update fun s _ => { s with expireCallback := value }
  | .setPendingTaskCountMax value => setPendingTaskCountMax value
  | .canSleep => canSleep
  | .newScheduler numWorkers pendingJobMaxCount =>
    .block [setThreadFactory true, simpleStart numWorkers pendingJobMaxCount]
  | .addSplitterJob job => addSplitterJob job
  | .onCompletedJob => onCompletedJob
  | .waitAllJobDone => waitAllJobDone
  | .createSplitterJob => .foreign
  | .setSplitterJobFactory => .skip

/-- A call starts with fresh locals, but in the same thread. -/
def procedures : Procedures Mutex Cond Data Local Env Op where
  mutexOf := mutexOf
  enter l := { self := l.self }
  body := operation

end Threads.Locks
