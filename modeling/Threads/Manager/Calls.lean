import Threads.Manager.Impl

/-!
# The public operations of `ThreadManager::Impl`

The blocks of `Start`, `AddWorker`, `RemoveWorker`, `StopImpl`, `Add` and the
smaller operations. A call that waits is split at the wait; the accesses made
without a lock (the first test of `state_`, the read of `worker_count_` in
`StopImpl`, starting a thread and registering its id) are blocks of their own.
-/

namespace Threads.Manager

open Concurrency

/-- A call that dereferences a null `thread_factory_` has no block. -/
inductive CallAct where
  | start (simple : Option (Nat × Nat))
  | setPendingTaskCountMax
  | testStopped
  | lockStart
  | resumeStart
  | addWorker (value : Nat)
  | newThreads
  | raise
  | startThread (created : Option Nat)
  | register
  | awaitAdded
  | removeWorker (value : Nat)
  | lower
  | awaitRemoved
  | stop (join : Bool)
  | lockStop
  | readCount
  | finishStop
  | add (r : Request) (env : Surroundings) (now : Int)
  | addGuardFails (r : Request)
  | resumeAdd (now : Int)
  | addTimesOut
  | remove (task : Nat)
  | removeNextPending
  | removeExpiredTasks (env : Surroundings)
  | expiredTaskCount
  | setExpireCallback (set : Bool)
  | setThreadFactory (set : Bool)

/-! ## Start -/

/-- Where `Start` goes when `Impl::Start` has returned. -/
def Call.afterStart : Option Nat → Call
  | .none => .none
  | some workers => .newThreads workers

def startedEvents : Option Nat → List Event
  | .none => [.returned .start]
  | some _ => []

/-- The test of `state_` before any lock is taken. -/
def testStoppedBlock (s : Impl) (workers : Option Nat) : Effect Call :=
  if s.state = .stopped then
    { shared := s, self := .afterStart workers, events := startedEvents workers }
  else { shared := s, self := .start workers }

def startWaitBlock (s : Impl) (workers : Option Nat) : Effect Call :=
  if s.state = .starting then { shared := s, self := .startParked workers }
  else { shared := s, self := .afterStart workers, events := startedEvents workers }

def lockStartBlock (s : Impl) (workers : Option Nat) : Effect Call :=
  if s.state = .uninitialized then
    if s.threadFactory then
      { shared := { s with state := .started }
        self := .afterStart workers
        signals := [.notifyAll .monitor]
        events := .became .started :: startedEvents workers }
    else { shared := s, self := .none, events := [.threw .start .invalidArgument] }
  else startWaitBlock s workers

/-! ## AddWorker -/

def newThreadsBlock (s : Impl) (value : Nat) : Effect Call :=
  { shared := { s with threadAllocs := s.threadAllocs + value }
    self := .addWorker (List.range' s.threadAllocs value) }

/-- The loop over `new_threads`, with these threads left to start. -/
def Call.startLoop : List Nat → Call
  | [] => .awaitAdded
  | object :: objects => .startThreads (object :: objects)

def raiseBlock (s : Impl) (objects : List Nat) : Effect Call :=
  { shared := { s with
      workerMaxCount := s.workerMaxCount + objects.length
      workers := s.workers ++ objects }
    self := .startLoop objects }

/-- `Thread::Start()`; when `pthread_create` fails, `pthread_` stays 0 and no thread runs. -/
def startThreadBlock (s : Impl) (object : Nat) (objects : List Nat) : Option Nat → Effect Call
  | some id =>
    { shared := s
      self := .register ⟨object, id⟩ objects
      spawned := [{ ref := ⟨object, id⟩, worker := .entry }] }
  | .none => { shared := s, self := .register ⟨object, 0⟩ objects }

/-- `id_map_.insert` keeps an entry the id already has. -/
def registerBlock (s : Impl) (thread : ThreadRef) (objects : List Nat) : Effect Call :=
  { shared := { s with
      idMap := if s.idMap.any (fun t => t.id == thread.id) then s.idMap else s.idMap ++ [thread] }
    self := .startLoop objects }

def awaitAddedBlock (s : Impl) : Effect Call :=
  if s.workerCount ≠ s.workerMaxCount then { shared := s, self := .addedParked }
  else { shared := s, self := .none, events := [.returned .addWorker] }

/-! ## RemoveWorker -/

def Caller.operation : Caller → Operation
  | .client => .removeWorker
  | .stopImpl join => .ofJoin join

/-- One `Notify` for each idle worker when there are fewer of them than `value`. -/
def lowerSignals (s : Impl) (value : Nat) : List (Signal Cond) :=
  if s.idleCount < value then List.replicate s.idleCount (.notify .monitor)
  else [.notifyAll .monitor]

def lowerBlock (s : Impl) (value : Nat) (caller : Caller) : Effect Call :=
  if value > s.workerMaxCount then
    { shared := s, self := .none, events := [.threw caller.operation .invalidArgument] }
  else
    { shared := { s with workerMaxCount := s.workerMaxCount - value }
      self := .awaitRemoved caller
      signals := lowerSignals s value }

/-- Forget the dead workers. -/
def collectDead (s : Impl) : Impl :=
  { s with
    idMap := s.idMap.filter (fun t => !s.deadWorkers.any (fun dead => dead.id == t.id))
    workers :=
      s.workers.filter (fun object => !s.deadWorkers.any (fun dead => dead.object == object))
    deadWorkers := [] }

def Call.afterRemove : Caller → Call
  | .client => .none
  | .stopImpl join => .finishStop join true

def removedEvents : Caller → List Event
  | .client => [.returned .removeWorker]
  | .stopImpl _ => []

def awaitRemovedBlock (s : Impl) (caller : Caller) : Effect Call :=
  if s.workerCount ≠ s.workerMaxCount then { shared := s, self := .removedParked caller }
  else { shared := collectDead s, self := .afterRemove caller, events := removedEvents caller }

/-! ## StopImpl -/

def stopBlock (s : Impl) (join : Bool) : Effect Call :=
  if s.state = .stopped then { shared := s, self := .none, events := [.returned (.ofJoin join)] }
  else { shared := s, self := .stopImpl join }

def shutdownState (join : Bool) : State := if join then .joining else .stopping

def lockStopBlock (s : Impl) (join : Bool) : Effect Call :=
  if s.state ≠ .stopping ∧ s.state ≠ .joining ∧ s.state ≠ .stopped then
    { shared := { s with state := shutdownState join }
      self := .readCount join
      events := [.became (shutdownState join)] }
  else { shared := s, self := .finishStop join false }

def readCountBlock (s : Impl) (join : Bool) : Effect Call :=
  { shared := s, self := .removeWorker s.workerCount (.stopImpl join) }

def finishStopBlock (s : Impl) (join : Bool) : Effect Call :=
  { shared := { s with state := .stopped }
    self := .none
    events := [.became .stopped, .returned (.ofJoin join)] }

/-! ## Add and the queue operations -/

def pushed (s : Impl) (r : Request) (now : Int) : Impl :=
  { s with
    tasks := s.tasks ++ [Task.make s.taskAllocs r.value r.expiration now]
    taskAllocs := s.taskAllocs + 1 }

def pushSignals (s : Impl) : List (Signal Cond) :=
  if s.idleCount > 0 then [.notify .monitor] else []

def pushBlock (s : Impl) (r : Request) (now : Int) : Effect Call :=
  { shared := pushed s r now
    self := .none
    signals := pushSignals s
    events := [.pushed s.taskAllocs, .returned .add] }

def notStarted (op : String) : Exception :=
  .illegalState ("ThreadManager::Impl::" ++ op ++ " ThreadManager not started")

/-- `Add` of the thread `id`, from the moment its guard holds `mutex_`. -/
def addBlock (s : Impl) (id : Nat) (r : Request) (env : Surroundings) (now : Int) : Effect Call :=
  if s.state ≠ .started then
    { shared := s, self := .none, events := [.threw .add (notStarted "Add")] }
  else
    let rest := s.removeExpiredTasks env
    if (s.expiry env).raised then
      { shared := rest, self := .none, events := s.expiryEvents env ++ [.threw .add .callback] }
    else if rest.full then
      if rest.canSleep id && decide (0 ≤ r.timeout) then
        { shared := rest, self := .addParked r, events := s.expiryEvents env }
      else
        { shared := rest
          self := .none
          events := s.expiryEvents env ++ [.threw .add .tooManyPendingTasks] }
    else
      { pushBlock rest r now with events := s.expiryEvents env ++ (pushBlock rest r now).events }

/-- `Add` gets as far as `CanSleep()`, which asks the thread factory. -/
def reachesCanSleep (s : Impl) (env : Surroundings) : Bool :=
  s.state == .started && !(s.expiry env).raised && (s.removeExpiredTasks env).full

/-- Back from `max_monitor_.Wait`, the loop tests only the bound. -/
def resumeAddBlock (s : Impl) (r : Request) (now : Int) : Effect Call :=
  if s.full then { shared := s, self := .addParked r } else pushBlock s r now

def addTimedOutBlock (s : Impl) : Effect Call :=
  { shared := s, self := .none, events := [.threw .add .timedOut] }

def removeBlock (s : Impl) : Effect Call :=
  if s.state ≠ .started then
    { shared := s, self := .none, events := [.threw .remove (notStarted "Remove")] }
  else { shared := s, self := .none, events := [.returned .remove] }

def removeNextPendingBlock (s : Impl) : Effect Call :=
  if s.state = .started then
    { shared := s
      self := .none
      events := [.threw .removeNextPending (notStarted "RemoveNextPending")] }
  else
    match s.tasks with
    | [] => { shared := s, self := .none, events := [.returned .removeNextPending] }
    | t :: ts =>
      { shared := { s with tasks := ts }
        self := .none
        events := [.withdrawn t.id t.runnable, .returned .removeNextPending] }

/-- A client's own call of `RemoveExpiredTasks`, taken as one step. -/
def removeExpiredTasksBlock (s : Impl) (env : Surroundings) : Effect Call :=
  { shared := s.removeExpiredTasks env
    self := .none
    events := s.expiryEvents env ++
      if (s.expiry env).raised then [.threw .removeExpiredTasks .callback]
      else [.returned .removeExpiredTasks] }

def expiredTaskCountBlock (s : Impl) : Effect Call :=
  { shared := { s with expiredCount := 0 }, self := .none, events := [.counted s.expiredCount] }

def callBlock (s : Impl) (id : Nat) : Call → CallAct → Option (Effect Call)
  | .none, .start .none => some (testStoppedBlock s .none)
  | .none, .start (some (workers, pendingMax)) =>
    some { shared := s, self := .simpleStart workers pendingMax }
  | .simpleStart workers pendingMax, .setPendingTaskCountMax =>
    some { shared := { s with pendingTaskCountMax := pendingMax }, self := .testStopped workers }
  | .testStopped workers, .testStopped => some (testStoppedBlock s (some workers))
  | .start workers, .lockStart => some (lockStartBlock s workers)
  | .startWoken workers, .resumeStart => some (startWaitBlock s workers)
  | .none, .addWorker value => some { shared := s, self := .newThreads value }
  | .newThreads value, .newThreads =>
    if s.threadFactory || value == 0 then some (newThreadsBlock s value) else .none
  | .addWorker objects, .raise => some (raiseBlock s objects)
  | .startThreads (object :: objects), .startThread created =>
    some (startThreadBlock s object objects created)
  | .register thread objects, .register => some (registerBlock s thread objects)
  | .awaitAdded, .awaitAdded => some (awaitAddedBlock s)
  | .none, .removeWorker value => some { shared := s, self := .removeWorker value .client }
  | .removeWorker value caller, .lower => some (lowerBlock s value caller)
  | .awaitRemoved caller, .awaitRemoved => some (awaitRemovedBlock s caller)
  | .none, .stop join => some (stopBlock s join)
  | .stopImpl join, .lockStop => some (lockStopBlock s join)
  | .readCount join, .readCount => some (readCountBlock s join)
  | .finishStop join _, .finishStop => some (finishStopBlock s join)
  | .none, .add r env now =>
    if s.threadFactory || !reachesCanSleep s env then some (addBlock s id r env now) else .none
  | .none, .addGuardFails r => if r.timeout ≠ 0 then some (addTimedOutBlock s) else .none
  | .addWoken r, .resumeAdd now => some (resumeAddBlock s r now)
  | .addParked r, .addTimesOut => if 0 < r.timeout then some (addTimedOutBlock s) else .none
  | .none, .remove _ => some (removeBlock s)
  | .none, .removeNextPending => some (removeNextPendingBlock s)
  | .none, .removeExpiredTasks env => some (removeExpiredTasksBlock s env)
  | .none, .expiredTaskCount => some (expiredTaskCountBlock s)
  | .none, .setExpireCallback set =>
    some { shared := { s with expireCallback := set }, self := .none }
  | .none, .setThreadFactory set =>
    some { shared := { s with threadFactory := set }, self := .none }
  | _, _ => .none

/-! ## What a call can do, branch by branch -/

inductive CallStep (s : Impl) (id : Nat) : Call → CallAct → Effect Call → Prop
  | startRefused (stopped : s.state = .stopped) :
      CallStep s id .none (.start .none)
        { shared := s, self := .none, events := [.returned .start] }
  | startTested (running : s.state ≠ .stopped) :
      CallStep s id .none (.start .none) { shared := s, self := .start .none }
  | simpleStart {workers pendingMax} :
      CallStep s id .none (.start (some (workers, pendingMax)))
        { shared := s, self := .simpleStart workers pendingMax }
  | setPendingTaskCountMax {workers pendingMax} :
      CallStep s id (.simpleStart workers pendingMax) .setPendingTaskCountMax
        { shared := { s with pendingTaskCountMax := pendingMax }, self := .testStopped workers }
  | simpleStartRefused {workers} (stopped : s.state = .stopped) :
      CallStep s id (.testStopped workers) .testStopped
        { shared := s, self := .newThreads workers }
  | simpleStartTested {workers} (running : s.state ≠ .stopped) :
      CallStep s id (.testStopped workers) .testStopped
        { shared := s, self := .start (some workers) }
  | started {workers} (fresh : s.state = .uninitialized) (factory : s.threadFactory) :
      CallStep s id (.start workers) .lockStart
        { shared := { s with state := .started }
          self := .afterStart workers
          signals := [.notifyAll .monitor]
          events := .became .started :: startedEvents workers }
  | startFails {workers} (fresh : s.state = .uninitialized) (noFactory : s.threadFactory = false) :
      CallStep s id (.start workers) .lockStart
        { shared := s, self := .none, events := [.threw .start .invalidArgument] }
  | startAgain {workers} (used : s.state ≠ .uninitialized) :
      CallStep s id (.start workers) .lockStart (startWaitBlock s workers)
  | resumeStart {workers} :
      CallStep s id (.startWoken workers) .resumeStart (startWaitBlock s workers)
  | addWorker {value} :
      CallStep s id .none (.addWorker value) { shared := s, self := .newThreads value }
  | newThreads {value} : CallStep s id (.newThreads value) .newThreads (newThreadsBlock s value)
  | raise {objects} : CallStep s id (.addWorker objects) .raise (raiseBlock s objects)
  | startThread {object objects created} :
      CallStep s id (.startThreads (object :: objects)) (.startThread created)
        (startThreadBlock s object objects created)
  | register {thread objects} :
      CallStep s id (.register thread objects) .register (registerBlock s thread objects)
  | addedParks (differ : s.workerCount ≠ s.workerMaxCount) :
      CallStep s id .awaitAdded .awaitAdded { shared := s, self := .addedParked }
  | added (complete : s.workerCount = s.workerMaxCount) :
      CallStep s id .awaitAdded .awaitAdded
        { shared := s, self := .none, events := [.returned .addWorker] }
  | removeWorker {value} :
      CallStep s id .none (.removeWorker value) { shared := s, self := .removeWorker value .client }
  | lowerFails {value caller} (tooMany : s.workerMaxCount < value) :
      CallStep s id (.removeWorker value caller) .lower
        { shared := s, self := .none, events := [.threw caller.operation .invalidArgument] }
  | lowers {value caller} (enough : value ≤ s.workerMaxCount) :
      CallStep s id (.removeWorker value caller) .lower
        { shared := { s with workerMaxCount := s.workerMaxCount - value }
          self := .awaitRemoved caller
          signals := lowerSignals s value }
  | removedParks {caller} (differ : s.workerCount ≠ s.workerMaxCount) :
      CallStep s id (.awaitRemoved caller) .awaitRemoved
        { shared := s, self := .removedParked caller }
  | removed {caller} (complete : s.workerCount = s.workerMaxCount) :
      CallStep s id (.awaitRemoved caller) .awaitRemoved
        { shared := collectDead s, self := .afterRemove caller, events := removedEvents caller }
  | stopRefused {join} (stopped : s.state = .stopped) :
      CallStep s id .none (.stop join)
        { shared := s, self := .none, events := [.returned (.ofJoin join)] }
  | stopTested {join} (running : s.state ≠ .stopped) :
      CallStep s id .none (.stop join) { shared := s, self := .stopImpl join }
  | shutsDown {join} (first : s.state ≠ .stopping ∧ s.state ≠ .joining ∧ s.state ≠ .stopped) :
      CallStep s id (.stopImpl join) .lockStop
        { shared := { s with state := shutdownState join }
          self := .readCount join
          events := [.became (shutdownState join)] }
  | skipsRemoval {join} (later : s.state = .stopping ∨ s.state = .joining ∨ s.state = .stopped) :
      CallStep s id (.stopImpl join) .lockStop
        { shared := s, self := .finishStop join false }
  | readCount {join} :
      CallStep s id (.readCount join) .readCount
        { shared := s, self := .removeWorker s.workerCount (.stopImpl join) }
  | finishStop {join doStop} :
      CallStep s id (.finishStop join doStop) .finishStop
        { shared := { s with state := .stopped }
          self := .none
          events := [.became .stopped, .returned (.ofJoin join)] }
  | addRefused {r env now} (closed : s.state ≠ .started) :
      CallStep s id .none (.add r env now)
        { shared := s, self := .none, events := [.threw .add (notStarted "Add")] }
  | addRaised {r env now} (opened : s.state = .started) (raised : (s.expiry env).raised) :
      CallStep s id .none (.add r env now)
        { shared := s.removeExpiredTasks env
          self := .none
          events := s.expiryEvents env ++ [.threw .add .callback] }
  | addParks {r env now} (opened : s.state = .started) (full : (s.removeExpiredTasks env).full)
      (sleeps : (s.removeExpiredTasks env).canSleep id) (patient : 0 ≤ r.timeout) :
      CallStep s id .none (.add r env now)
        { shared := s.removeExpiredTasks env, self := .addParked r, events := s.expiryEvents env }
  | addTooMany {r env now} (opened : s.state = .started) (full : (s.removeExpiredTasks env).full)
      (refuses : (s.removeExpiredTasks env).canSleep id = false ∨ r.timeout < 0) :
      CallStep s id .none (.add r env now)
        { shared := s.removeExpiredTasks env
          self := .none
          events := s.expiryEvents env ++ [.threw .add .tooManyPendingTasks] }
  | adds {r env now} (opened : s.state = .started)
      (room : (s.removeExpiredTasks env).full = false) :
      CallStep s id .none (.add r env now)
        { shared := pushed (s.removeExpiredTasks env) r now
          self := .none
          signals := pushSignals s
          events := s.expiryEvents env ++ [.pushed s.taskAllocs, .returned .add] }
  | guardFails {r} (timed : r.timeout ≠ 0) :
      CallStep s id .none (.addGuardFails r) (addTimedOutBlock s)
  | resumesFull {r now} (full : s.full) :
      CallStep s id (.addWoken r) (.resumeAdd now) { shared := s, self := .addParked r }
  | resumesAndAdds {r now} (room : s.full = false) :
      CallStep s id (.addWoken r) (.resumeAdd now) (pushBlock s r now)
  | timesOut {r} (timed : 0 < r.timeout) :
      CallStep s id (.addParked r) .addTimesOut (addTimedOutBlock s)
  | remove {task} : CallStep s id .none (.remove task) (removeBlock s)
  | removeNextPending : CallStep s id .none .removeNextPending (removeNextPendingBlock s)
  | removeExpiredTasks {env} :
      CallStep s id .none (.removeExpiredTasks env) (removeExpiredTasksBlock s env)
  | expiredTaskCount : CallStep s id .none .expiredTaskCount (expiredTaskCountBlock s)
  | setExpireCallback {set} :
      CallStep s id .none (.setExpireCallback set)
        { shared := { s with expireCallback := set }, self := .none }
  | setThreadFactory {set} :
      CallStep s id .none (.setThreadFactory set)
        { shared := { s with threadFactory := set }, self := .none }

theorem callStep_of_addBlock {s : Impl} {id : Nat} (r : Request) (env : Surroundings) (now : Int) :
    CallStep s id .none (.add r env now) (addBlock s id r env now) := by
  unfold addBlock
  split
  · exact .addRefused ‹_›
  · have opened : s.state = .started := not_not.mp ‹_›
    dsimp only
    split
    · exact .addRaised opened ‹_›
    · split
      · split
        · rename_i sleeps
          simp only [Bool.and_eq_true, decide_eq_true_eq] at sleeps
          exact .addParks opened ‹_› sleeps.1 sleeps.2
        · rename_i refuses
          simp only [Bool.and_eq_true, decide_eq_true_eq, not_and_or, Int.not_le,
            Bool.not_eq_true] at refuses
          exact .addTooMany opened ‹_› refuses
      · exact .adds opened (by simpa using ‹¬Impl.full _ = true›)

theorem callStep_of_block {s : Impl} {id : Nat} {c : Call} {a : CallAct} {o : Effect Call}
    (h : callBlock s id c a = some o) : CallStep s id c a o := by
  unfold callBlock at h
  split at h
  case h_1 =>
    obtain rfl := Option.some.inj h
    unfold testStoppedBlock
    split
    · exact .startRefused ‹_›
    · exact .startTested ‹_›
  case h_2 => obtain rfl := Option.some.inj h; exact .simpleStart
  case h_3 => obtain rfl := Option.some.inj h; exact .setPendingTaskCountMax
  case h_4 =>
    obtain rfl := Option.some.inj h
    unfold testStoppedBlock
    split
    · exact .simpleStartRefused ‹_›
    · exact .simpleStartTested ‹_›
  case h_5 =>
    obtain rfl := Option.some.inj h
    unfold lockStartBlock
    split
    · split
      · exact .started ‹_› ‹_›
      · exact .startFails ‹_› (by simpa using ‹¬s.threadFactory = true›)
    · exact .startAgain ‹_›
  case h_6 => obtain rfl := Option.some.inj h; exact .resumeStart
  case h_7 => obtain rfl := Option.some.inj h; exact .addWorker
  case h_8 =>
    split at h
    · obtain rfl := Option.some.inj h; exact .newThreads
    · cases h
  case h_9 => obtain rfl := Option.some.inj h; exact .raise
  case h_10 => obtain rfl := Option.some.inj h; exact .startThread
  case h_11 => obtain rfl := Option.some.inj h; exact .register
  case h_12 =>
    obtain rfl := Option.some.inj h
    unfold awaitAddedBlock
    split
    · exact .addedParks ‹_›
    · exact .added (not_not.mp ‹_›)
  case h_13 => obtain rfl := Option.some.inj h; exact .removeWorker
  case h_14 =>
    obtain rfl := Option.some.inj h
    unfold lowerBlock
    split
    · exact .lowerFails ‹_›
    · exact .lowers (Nat.le_of_not_lt ‹_›)
  case h_15 =>
    obtain rfl := Option.some.inj h
    unfold awaitRemovedBlock
    split
    · exact .removedParks ‹_›
    · exact .removed (not_not.mp ‹_›)
  case h_16 =>
    obtain rfl := Option.some.inj h
    unfold stopBlock
    split
    · exact .stopRefused ‹_›
    · exact .stopTested ‹_›
  case h_17 =>
    obtain rfl := Option.some.inj h
    unfold lockStopBlock
    split
    · exact .shutsDown ‹_›
    · rename_i later
      exact .skipsRemoval (by simpa only [ne_eq, not_and_or, not_not] using later)
  case h_18 => obtain rfl := Option.some.inj h; exact .readCount
  case h_19 => obtain rfl := Option.some.inj h; exact .finishStop
  case h_20 =>
    split at h
    · obtain rfl := Option.some.inj h
      exact callStep_of_addBlock _ _ _
    · cases h
  case h_21 =>
    split at h
    · obtain rfl := Option.some.inj h; exact .guardFails ‹_›
    · cases h
  case h_22 =>
    obtain rfl := Option.some.inj h
    unfold resumeAddBlock
    split
    · exact .resumesFull ‹_›
    · exact .resumesAndAdds (by simpa using ‹¬s.full = true›)
  case h_23 =>
    split at h
    · obtain rfl := Option.some.inj h; exact .timesOut ‹_›
    · cases h
  case h_24 => obtain rfl := Option.some.inj h; exact .remove
  case h_25 => obtain rfl := Option.some.inj h; exact .removeNextPending
  case h_26 => obtain rfl := Option.some.inj h; exact .removeExpiredTasks
  case h_27 => obtain rfl := Option.some.inj h; exact .expiredTaskCount
  case h_28 => obtain rfl := Option.some.inj h; exact .setExpireCallback
  case h_29 => obtain rfl := Option.some.inj h; exact .setThreadFactory
  case h_30 => cases h

/-! ## What a call leaves alone -/

theorem startWaitBlock_shared (s : Impl) (workers : Option Nat) :
    (startWaitBlock s workers).shared = s := by
  unfold startWaitBlock
  split <;> rfl

theorem startThreadBlock_shared (s : Impl) (object : Nat) (objects : List Nat)
    (created : Option Nat) : (startThreadBlock s object objects created).shared = s := by
  cases created <;> rfl

theorem removeBlock_eq (s : Impl) :
    ∃ e, removeBlock s = { shared := s, self := .none, events := [e] } := by
  unfold removeBlock
  split
  · exact ⟨_, rfl⟩
  · exact ⟨_, rfl⟩

theorem removeBlock_shared (s : Impl) : (removeBlock s).shared = s := by
  obtain ⟨e, eq⟩ := removeBlock_eq s
  rw [eq]

/-- `RemoveNextPending` ends in one block, which takes the head of the queue or nothing. -/
theorem removeNextPendingBlock_eq (s : Impl) :
    ∃ tasks es, tasks <:+ s.tasks ∧ removeNextPendingBlock s =
      { shared := { s with tasks := tasks }, self := .none, events := es } := by
  unfold removeNextPendingBlock
  split
  · exact ⟨s.tasks, _, List.suffix_refl _, rfl⟩
  · split
    · exact ⟨s.tasks, _, List.suffix_refl _, rfl⟩
    · rename_i t ts queue
      exact ⟨ts, _, queue ▸ List.suffix_cons t ts, rfl⟩

theorem removeNextPendingBlock_shared (s : Impl) :
    ∃ tasks, tasks <:+ s.tasks ∧ (removeNextPendingBlock s).shared = { s with tasks := tasks } := by
  obtain ⟨tasks, es, suffix, eq⟩ := removeNextPendingBlock_eq s
  exact ⟨tasks, suffix, by rw [eq]⟩

/-- The counts that `Worker::Run` keeps are not written by any call. -/
theorem CallStep.counts {s : Impl} {id : Nat} {d : Call} {a : CallAct} {o : Effect Call}
    (h : CallStep s id d a o) :
    o.shared.workerCount = s.workerCount ∧ o.shared.idleCount = s.idleCount := by
  cases h with
  | startAgain | resumeStart => simp [startWaitBlock_shared]
  | startThread => simp [startThreadBlock_shared]
  | remove => simp [removeBlock_shared]
  | removeNextPending =>
    obtain ⟨_, -, eq⟩ := removeNextPendingBlock_shared s
    simp [eq]
  | _ => exact ⟨rfl, rfl⟩

/-- Only `AddWorker` starts a thread, one at a time, and it starts a worker. -/
theorem CallStep.spawned {s : Impl} {id : Nat} {d : Call} {a : CallAct} {o : Effect Call}
    (h : CallStep s id d a o) :
    o.spawned = [] ∨ ∃ ref, o.spawned = [{ ref := ref, worker := .entry }] := by
  cases h with
  | startAgain | resumeStart =>
    unfold startWaitBlock
    split <;> exact .inl rfl
  | @startThread object objects created =>
    cases created with
    | none => exact .inl rfl
    | some id => exact .inr ⟨⟨object, id⟩, rfl⟩
  | remove =>
    obtain ⟨e, eq⟩ := removeBlock_eq s
    rw [eq]
    exact .inl rfl
  | removeNextPending =>
    obtain ⟨tasks, es, -, eq⟩ := removeNextPendingBlock_eq s
    rw [eq]
    exact .inl rfl
  | _ => exact .inl rfl

/-! ## What a call reports -/

/-- What an event of a call says about the block it comes from. -/
def CallReport (s : Impl) (a : CallAct) (s' : Impl) : Event → Prop
  | .dequeued _ | .ran _ | .finished _ _ | .left => False
  | .withdrawn _ _ => a = .removeNextPending ∧ s.state ≠ .started ∧ s.tasks ≠ []
  | .returned .stop | .returned .join => s'.state = .stopped
  | _ => True

theorem CallStep.reports {s : Impl} {id : Nat} {d : Call} {a : CallAct} {o : Effect Call}
    (h : CallStep s id d a o) {e : Event} (he : e ∈ o.events) : CallReport s a o.shared e := by
  have expiry {s' : Impl} {env : Surroundings} (he : e ∈ s.expiryEvents env) :
      CallReport s a s' e := by
    rcases Impl.mem_expiryEvents he with ⟨t, rfl⟩ | ⟨t, callback, rfl⟩ <;> trivial
  have single {s' : Impl} {f : Event} (he : e ∈ [f]) (report : CallReport s a s' f) :
      CallReport s a s' e := by
    rwa [List.mem_singleton.mp he]
  have starts {s' : Impl} {workers : Option Nat} (he : e ∈ startedEvents workers) :
      CallReport s a s' e := by
    cases workers with
    | none => exact single he trivial
    | some => cases he
  cases h with
  | @stopRefused join stopped => cases join <;> exact single he stopped
  | @finishStop join =>
    rcases List.mem_pair.mp he with rfl | rfl
    · trivial
    · cases join <;> exact rfl
  | removeNextPending =>
    unfold removeNextPendingBlock at he ⊢
    split at he
    · exact single he trivial
    · split at he
      · exact single he trivial
      · rename_i t ts queue
        rcases List.mem_pair.mp he with rfl | rfl
        · exact ⟨rfl, ‹_›, by simp [queue]⟩
        · trivial
  | started =>
    rcases List.mem_cons.mp he with rfl | he
    · trivial
    · exact starts he
  | startAgain | resumeStart =>
    unfold startWaitBlock at he
    split at he
    · cases he
    · exact starts he
  | @startThread object objects created => cases created <;> cases he
  | @removed caller =>
    cases caller with
    | client => exact single he trivial
    | stopImpl => cases he
  | addParks => exact expiry he
  | addRaised | addTooMany =>
    rcases List.mem_append.mp he with he | he
    · exact expiry he
    · exact single he trivial
  | adds =>
    rcases List.mem_append.mp he with he | he
    · exact expiry he
    · rcases List.mem_pair.mp he with rfl | rfl <;> trivial
  | resumesAndAdds => rcases List.mem_pair.mp he with rfl | rfl <;> trivial
  | remove =>
    unfold removeBlock at he
    split at he <;> exact single he trivial
  | removeExpiredTasks =>
    rcases List.mem_append.mp he with he | he
    · exact expiry he
    · split at he <;> exact single he trivial
  | startRefused | startFails | added | lowerFails | shutsDown | addRefused | guardFails |
      timesOut | expiredTaskCount => exact single he trivial
  | _ => cases he

end Threads.Manager
