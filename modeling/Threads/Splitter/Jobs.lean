import Threads.Concurrency.Projection
import Threads.Manager.System
import Threads.SizeT
import Mathlib.Logic.Function.Basic

/-!
# `ObservableSplitterJob` and the scheduler that observes it

The blocks of `AddSplitterJob`, of `ObservableSplitterJob::Run` and of the constructor
and the destructor of `SplitterJobScheduler`, around those of its `thread_manager_`. A
job holds its observers by `weak_ptr`; who holds them by `shared_ptr` is counted.
-/

namespace Threads.Splitter

open Concurrency

/-- What can be registered with a job: the scheduler, or an observer outside of it. -/
inductive Observer where
  | scheduler
  | other (n : Nat)
  deriving DecidableEq, Repr

/-- Where a thread goes on when it has given a reference back: a client to its own
code, a worker to the next observer or, if `OnCompletedJob` has thrown, out of `Run`. -/
inductive Back where
  | client
  | notify (job next : Nat)
  | finish
  deriving DecidableEq, Repr

/-- Where a thread stands in the operations around `thread_manager_`. -/
inductive Place where
  | outside
  /-- In `Init`, before `SetThreadFactory`. -/
  | initializing
  /-- In `thread_manager_->Start()`. -/
  | starting
  /-- In `AddSplitterJob`, before `RegisterObserver`. -/
  | registering (job : Nat)
  /-- `RegisterObserver` has not found the scheduler in the list. -/
  | appending (job : Nat)
  /-- In `thread_manager_->Add(job)`. -/
  | adding (job : Nat)
  | handed
  | splitting (job : Nat)
  /-- In `NotifyAllObservers`, at the test of its loop. -/
  | notifying (job next : Nat)
  /-- `ob` is not null, and `OnCompletedJob` is next. -/
  | calling (job next : Nat) (o : Observer)
  /-- `OnCompletedJob` is over, and `ob` is still held. -/
  | called (job next : Nat) (o : Observer) (raised : Bool)
  /-- `ObservableSplitterJob::Run` is over. -/
  | finished (raised : Bool)
  /-- In `~SplitterJobScheduler`. -/
  | destroying (back : Back)
  deriving DecidableEq, Repr

structure Member where
  thread : Manager.Thread
  place : Place := .outside
  deriving DecidableEq

/-- A `clientRefs` reference is in a variable that any client may use; a client that is
inside `AddSplitterJob` has taken its own out. -/
structure JobScheduler where
  impl : Manager.Impl := {}
  numWorkers : Nat
  pendingJobMaxCount : Nat
  pendingJobCount : Nat := 0
  /-- The `observer_list_` of each job. -/
  observers : Nat → List Observer
  /-- The number of `shared_ptr`s to an observer; its `weak_ptr`s are null when it is 0. -/
  useCount : Observer → Nat
  clientRefs : Observer → Nat
  /-- A null pointer has been dereferenced, or an exception has left a destructor. -/
  crashed : Bool := false

/-- `SplitterStrategy::Split` returns, or it throws. -/
inductive SplitResult where
  | returned (ok : Bool)
  | threw
  deriving DecidableEq, Repr

inductive JobAct where
  | manager (a : Manager.Act)
  | addSplitterJob (job : Nat)
  | search
  | append
  | count
  | copy (o : Observer)
  | drop (o : Observer)
  | split (result : SplitResult)
  | lock
  | onCompletedJob
  | callOther (raises : Bool)
  | release

/-- A move of a client or a worker of the scheduler. -/
abbrev JobMove := Move JobAct

inductive JobEvent where
  | manager (e : Manager.Event)
  | completed (job : Nat)
  | calledOther (n : Nat)
  /-- `OnCompletedJob` is called on null. -/
  | calledNull (job : Nat) (o : Observer)
  deriving DecidableEq

abbrev JobEffect (Self : Type) := Outcome JobScheduler Self Member JobEvent Manager.Cond

namespace JobScheduler

/-- `observer.lock()` -/
def lock (s : JobScheduler) (o : Observer) : Option Observer :=
  if 0 < s.useCount o then some o else none

/-- `RegisterObserver(shared_from_this())` finds the scheduler in the list. -/
def registered (s : JobScheduler) (job : Nat) : Bool :=
  (s.observers job).any fun observer => s.lock .scheduler == s.lock observer

def appendObserver (s : JobScheduler) (job : Nat) : JobScheduler :=
  { s with observers := Function.update s.observers job (s.observers job ++ [.scheduler]) }

/-- A reference to `o` more, or one less, of those that can be counted. -/
def hold (s : JobScheduler) (o : Observer) : JobScheduler :=
  { s with useCount := Function.update s.useCount o (s.useCount o + 1) }

def letGo (s : JobScheduler) (o : Observer) : JobScheduler :=
  { s with useCount := Function.update s.useCount o (s.useCount o - 1) }

/-- A client puts a reference into a variable, or takes it out. -/
def keep (s : JobScheduler) (o : Observer) : JobScheduler :=
  { s with clientRefs := Function.update s.clientRefs o (s.clientRefs o + 1) }

def take (s : JobScheduler) (o : Observer) : JobScheduler :=
  { s with clientRefs := Function.update s.clientRefs o (s.clientRefs o - 1) }

theorem hold_useCount (s : JobScheduler) (o x : Observer) :
    (s.hold o).useCount x = s.useCount x + if x = o then 1 else 0 := by
  by_cases same : x = o
  · subst same
    simp [hold]
  · simp [hold, same]

theorem letGo_useCount (s : JobScheduler) (o x : Observer) :
    (s.letGo o).useCount x = s.useCount x - if x = o then 1 else 0 := by
  by_cases same : x = o
  · subst same
    simp [letGo]
  · simp [letGo, same]

theorem keep_clientRefs (s : JobScheduler) (o x : Observer) :
    (s.keep o).clientRefs x = s.clientRefs x + if x = o then 1 else 0 := by
  by_cases same : x = o
  · subst same
    simp [keep]
  · simp [keep, same]

theorem take_clientRefs (s : JobScheduler) (o x : Observer) :
    (s.take o).clientRefs x = s.clientRefs x - if x = o then 1 else 0 := by
  by_cases same : x = o
  · subst same
    simp [take]
  · simp [take, same]

@[simp] theorem hold_clientRefs (s : JobScheduler) (o : Observer) :
    (s.hold o).clientRefs = s.clientRefs := rfl

@[simp] theorem letGo_clientRefs (s : JobScheduler) (o : Observer) :
    (s.letGo o).clientRefs = s.clientRefs := rfl

@[simp] theorem keep_useCount (s : JobScheduler) (o : Observer) :
    (s.keep o).useCount = s.useCount := rfl

@[simp] theorem take_useCount (s : JobScheduler) (o : Observer) :
    (s.take o).useCount = s.useCount := rfl

end JobScheduler

/-! ## The blocks of the scheduler and of its jobs -/

def Back.place : Back → Place
  | .client => .outside
  | .notify job next => .notifying job next
  | .finish => .finished true

/-- The thread that gives back the last reference to the scheduler destroys it. -/
def afterRelease (s : JobScheduler) (o : Observer) (back : Back) : Place :=
  if o = .scheduler ∧ s.useCount o = 1 then .destroying back else back.place

def searchBlock (s : JobScheduler) (job : Nat) : JobEffect Place :=
  { shared := s, self := if s.registered job then .adding job else .appending job }

/-- The test of the loop of `NotifyAllObservers`, and `observer.lock()`. -/
def lockBlock (s : JobScheduler) (job next : Nat) : JobEffect Place :=
  match (s.observers job)[next]? with
  | none => { shared := s, self := .finished false }
  | some observer =>
    match s.lock observer with
    | none =>
      { shared := { s with crashed := true }
        self := .notifying job next
        events := [.calledNull job observer] }
    | some ob => { shared := s.hold ob, self := .calling job next ob }

def completedBlock (s : JobScheduler) (job next : Nat) : JobEffect Place :=
  { shared := { s with pendingJobCount := decrement s.pendingJobCount }
    self := .called job next .scheduler false
    events := [.completed job] }

/-- The loop variable `ob` goes out of scope. -/
def releaseBlock (s : JobScheduler) (job next : Nat) (ob : Observer) (raised : Bool) :
    JobEffect Place :=
  { shared := s.letGo ob
    self := afterRelease s ob (if raised then .finish else .notify job (next + 1)) }

/-- No thread waits on `monitor_` here, so its `NotifyAll` signals nobody. -/
def jobBlock (s : JobScheduler) : Place → JobAct → Option (JobEffect Place)
  | .outside, .addSplitterJob job =>
    if 0 < s.clientRefs .scheduler then
      some { shared := s.take .scheduler, self := .registering job }
    else none
  | .registering job, .search => some (searchBlock s job)
  | .appending job, .append => some { shared := s.appendObserver job, self := .adding job }
  | .handed, .count =>
    some
      { shared := { s.keep .scheduler with pendingJobCount := increment s.pendingJobCount }
        self := .outside }
  | .outside, .copy o =>
    if 0 < s.clientRefs o then some { shared := (s.hold o).keep o, self := .outside } else none
  | .outside, .drop o =>
    if 0 < s.clientRefs o then
      some { shared := (s.letGo o).take o, self := afterRelease s o .client }
    else none
  | .splitting job, .split (.returned _) => some { shared := s, self := .notifying job 0 }
  | .splitting _, .split .threw => some { shared := s, self := .finished true }
  | .notifying job next, .lock => some (lockBlock s job next)
  | .calling job next .scheduler, .onCompletedJob => some (completedBlock s job next)
  | .calling job next (.other n), .callOther raises =>
    some { shared := s, self := .called job next (.other n) raises, events := [.calledOther n] }
  | .called job next ob raised, .release => some (releaseBlock s job next ob raised)
  | _, _ => none

/-- What a step outside the thread manager can do, branch by branch. -/
inductive JobStep (s : JobScheduler) : Place → JobAct → JobEffect Place → Prop
  | begins {job} (held : 0 < s.clientRefs .scheduler) :
      JobStep s .outside (.addSplitterJob job)
        { shared := s.take .scheduler, self := .registering job }
  | finds {job} (there : s.registered job = true) :
      JobStep s (.registering job) .search { shared := s, self := .adding job }
  | misses {job} (absent : s.registered job = false) :
      JobStep s (.registering job) .search { shared := s, self := .appending job }
  | appends {job} :
      JobStep s (.appending job) .append { shared := s.appendObserver job, self := .adding job }
  | counts :
      JobStep s .handed .count
        { shared := { s.keep .scheduler with pendingJobCount := increment s.pendingJobCount }
          self := .outside }
  | copies {o} (held : 0 < s.clientRefs o) :
      JobStep s .outside (.copy o) { shared := (s.hold o).keep o, self := .outside }
  | drops {o} (held : 0 < s.clientRefs o) :
      JobStep s .outside (.drop o)
        { shared := (s.letGo o).take o, self := afterRelease s o .client }
  | splits {job ok} :
      JobStep s (.splitting job) (.split (.returned ok)) { shared := s, self := .notifying job 0 }
  | splitThrows {job} :
      JobStep s (.splitting job) (.split .threw) { shared := s, self := .finished true }
  | ends {job next} (ended : (s.observers job)[next]? = none) :
      JobStep s (.notifying job next) .lock { shared := s, self := .finished false }
  | callsNull {job next o} (there : (s.observers job)[next]? = some o) (dead : s.useCount o = 0) :
      JobStep s (.notifying job next) .lock
        { shared := { s with crashed := true }
          self := .notifying job next
          events := [.calledNull job o] }
  | locks {job next o} (there : (s.observers job)[next]? = some o) (live : 0 < s.useCount o) :
      JobStep s (.notifying job next) .lock { shared := s.hold o, self := .calling job next o }
  | completes {job next} :
      JobStep s (.calling job next .scheduler) .onCompletedJob (completedBlock s job next)
  | callsOther {job next n raises} :
      JobStep s (.calling job next (.other n)) (.callOther raises)
        { shared := s, self := .called job next (.other n) raises, events := [.calledOther n] }
  | releases {job next o raised} :
      JobStep s (.called job next o raised) .release (releaseBlock s job next o raised)

theorem jobStep_of_block {s : JobScheduler} {p : Place} {a : JobAct} {o : JobEffect Place}
    (h : jobBlock s p a = some o) : JobStep s p a o := by
  unfold jobBlock at h
  split at h
  case h_1 =>
    split at h
    · obtain rfl := Option.some.inj h
      exact .begins ‹_›
    · cases h
  case h_2 job =>
    obtain rfl := Option.some.inj h
    unfold searchBlock
    split
    · exact .finds ‹_›
    · exact .misses (by simpa using ‹¬s.registered job = true›)
  case h_3 =>
    obtain rfl := Option.some.inj h
    exact .appends
  case h_4 =>
    obtain rfl := Option.some.inj h
    exact .counts
  case h_5 =>
    split at h
    · obtain rfl := Option.some.inj h
      exact .copies ‹_›
    · cases h
  case h_6 =>
    split at h
    · obtain rfl := Option.some.inj h
      exact .drops ‹_›
    · cases h
  case h_7 =>
    obtain rfl := Option.some.inj h
    exact .splits
  case h_8 =>
    obtain rfl := Option.some.inj h
    exact .splitThrows
  case h_9 job next =>
    obtain rfl := Option.some.inj h
    unfold lockBlock
    split
    · exact .ends ‹_›
    · rename_i observer there
      by_cases live : 0 < s.useCount observer
      · simp only [JobScheduler.lock, if_pos live]
        exact .locks there live
      · simp only [JobScheduler.lock, if_neg live]
        exact .callsNull there (Nat.eq_zero_of_not_pos live)
  case h_10 =>
    obtain rfl := Option.some.inj h
    exact .completes
  case h_11 =>
    obtain rfl := Option.some.inj h
    exact .callsOther
  case h_12 =>
    obtain rfl := Option.some.inj h
    exact .releases
  case h_13 => cases h

theorem JobStep.quiet {s : JobScheduler} {p : Place} {a : JobAct} {o : JobEffect Place}
    (h : JobStep s p a o) : o.signals = [] ∧ o.spawned = [] ∧ o.shared.impl = s.impl := by
  cases h <;> exact ⟨rfl, rfl, rfl⟩

/-! ## The blocks of the thread manager -/

/-- The operation of `thread_manager_` that is called at this place. -/
def Place.begins (s : JobScheduler) : Place → Manager.CallAct → Bool
  | .initializing, .setThreadFactory set => set
  | .starting, .start simple => simple == some (s.numWorkers, s.pendingJobMaxCount)
  | .adding job, .add r _ _ => r == ⟨job, 0, 0⟩
  | .destroying _, .stop join => !join
  | _, _ => false

/-- A task ends as its `Run` does, and only the scheduler calls its thread manager. -/
def Member.permits (s : JobScheduler) (v : Member) : Manager.Act → Bool
  | .worker (.finish raised) => v.place == .finished raised
  | .worker _ => true
  | .call a => v.thread.call != .none || v.place.begins s a

/-- The block ends a call by an exception. -/
def threw (es : List Manager.Event) : Bool :=
  es.any fun
    | .threw _ _ => true
    | _ => false

/-- A worker that begins a task calls `Run` of its job. -/
def placeOf : Manager.Worker → Place
  | .running t => .splitting t.runnable
  | _ => .outside

/-- Where a block of the thread manager leaves the operation around it, with the thread
after the block and its events. -/
def Place.next (t : Manager.Thread) (es : List Manager.Event) : Place → Place
  | .outside => placeOf t.worker
  | .initializing => .starting
  | .starting => if t.call = .none then .outside else .starting
  | .adding job =>
    if t.call = .none then if threw es then .outside else .handed else .adding job
  | .finished _ => .outside
  | .destroying back => if t.call = .none then back.place else .destroying back
  | p => p

/-- What the operation does when `Start`, `Add` or `Stop` is over: the constructor's
caller gets its reference, a refused caller keeps its own. -/
def JobScheduler.next (s : JobScheduler) (t : Manager.Thread) (es : List Manager.Event) :
    Place → JobScheduler
  | .starting =>
    if t.call = .none ∧ threw es = false then (s.hold .scheduler).keep .scheduler else s
  | .adding _ => if t.call = .none ∧ threw es = true then s.keep .scheduler else s
  | .destroying _ => if t.call = .none ∧ threw es = true then { s with crashed := true } else s
  | _ => s

def Member.wake (v : Member) : Member := { v with thread := v.thread.wake }

def Member.atPlace (v : Member) (p : Place) : Member := { v with place := p }

def Member.ofThread (t : Manager.Thread) : Member := { thread := t }

def managerBlock (s : JobScheduler) (v : Member) (a : Manager.Act) : Option (JobEffect Member) :=
  if v.permits s a then
    (Manager.threadManager.block s.impl v.thread a).map fun o =>
      { shared := { s with impl := o.shared }.next o.self o.events v.place
        self := { thread := o.self, place := v.place.next o.self o.events }
        signals := o.signals
        spawned := o.spawned.map .ofThread
        events := o.events.map .manager }
  else none

/-- Clients and workers around one `SplitterJobScheduler`. -/
def jobScheduler : Program JobScheduler Member JobAct JobEvent Manager.Cond where
  waitsOn v := v.thread.waitsOn
  wake := Member.wake
  wake_awake v := Manager.threadManager.wake_awake v.thread
  block s v a :=
    if s.crashed || s.impl.terminated then none
    else match a with
      | .manager a => managerBlock s v a
      | a =>
        if v.place = .outside → v.thread.worker = .absent then
          (jobBlock s v.place a).map (.mapSelf v.atPlace)
        else none

theorem calm_client : Manager.Worker.absent.makesCalls = true ∨ Manager.Call.none = .none :=
  .inl rfl

/-- A client is about to make a scheduler. `others` are the observers that the jobs have
already, and `refs` says which of them are alive. -/
def newScheduler (workers pendingMax : Nat) (others : Nat → List Nat) (refs : Nat → Nat)
    (client : Nat) (clients : List Nat) : Config JobScheduler Member JobEvent where
  shared :=
    { numWorkers := workers
      pendingJobMaxCount := pendingMax
      observers := fun job => (others job).map .other
      useCount := fun
        | .scheduler => 0
        | .other n => refs n
      clientRefs := fun
        | .scheduler => 0
        | .other n => refs n }
  threads := { thread := { ref := ⟨0, client⟩, calm := calm_client }, place := .initializing } ::
    (Manager.fresh clients).threads.map .ofThread

@[simp] theorem JobScheduler.next_impl (s : JobScheduler) (t : Manager.Thread)
    (es : List Manager.Event) (p : Place) : (s.next t es p).impl = s.impl := by
  unfold JobScheduler.next
  split
  · split <;> rfl
  · split <;> rfl
  · split <;> rfl
  · rfl

def JobEvent.ofManager : JobEvent → Option Manager.Event
  | .manager e => some e
  | _ => none

theorem JobStep.unseen {s : JobScheduler} {p : Place} {a : JobAct} {o : JobEffect Place}
    (h : JobStep s p a o) : o.events.filterMap JobEvent.ofManager = [] := by
  cases h <;> rfl

theorem jobScheduler_block {s : JobScheduler} {v : Member} {a : JobAct} {o : JobEffect Member}
    (h : jobScheduler.block s v a = some o) :
    (s.crashed = false ∧ s.impl.terminated = false) ∧
      ((∃ a', a = .manager a' ∧ managerBlock s v a' = some o) ∨
        (v.place = .outside → v.thread.worker = .absent) ∧
          ∃ o', JobStep s v.place a o' ∧ o = o'.mapSelf v.atPlace) := by
  simp only [jobScheduler] at h
  split at h
  · cases h
  · rename_i alive
    simp only [Bool.or_eq_true, not_or, Bool.not_eq_true] at alive
    refine ⟨alive, ?_⟩
    split at h
    · exact .inl ⟨_, rfl, h⟩
    · split at h
      · obtain ⟨o', block, rfl⟩ := Option.map_eq_some_iff.mp h
        exact .inr ⟨‹_›, o', jobStep_of_block block, rfl⟩
      · cases h

/-- The scheduler's thread manager is a thread manager. -/
def managerPart : Projection jobScheduler Manager.threadManager where
  shared := JobScheduler.impl
  thread := Member.thread
  event := JobEvent.ofManager
  waitsOn _ := rfl
  wake _ := rfl
  block {s v a o} h := by
    rcases (jobScheduler_block h).2 with ⟨a', rfl, block⟩ | ⟨-, o', step, rfl⟩
    · unfold managerBlock at block
      split at block
      · obtain ⟨o', fires, rfl⟩ := Option.map_eq_some_iff.mp block
        refine .inl ⟨a', ?_⟩
        rw [fires]
        congr 1
        have threads : (o'.spawned.map Member.ofThread).map Member.thread = o'.spawned := by
          rw [List.map_map]
          exact List.map_id _
        have events : (o'.events.map JobEvent.manager).filterMap JobEvent.ofManager =
            o'.events := by
          rw [List.filterMap_map]
          exact List.filterMap_some
        simp only [JobScheduler.next_impl, threads, events]
      · cases block
    · obtain ⟨silent, childless, impl⟩ := step.quiet
      refine .inr ⟨impl, rfl, silent, childless, step.unseen⟩

/-- The manager inside begins as a new one. -/
theorem managerPart_newScheduler (workers pendingMax : Nat) (others : Nat → List Nat)
    (refs : Nat → Nat) (client : Nat) (clients : List Nat) :
    managerPart.config (newScheduler workers pendingMax others refs client clients) =
      Manager.fresh (client :: clients) := by
  have threads : ((Manager.fresh clients).threads.map Member.ofThread).map Member.thread =
      (Manager.fresh clients).threads := by
    rw [List.map_map]
    exact List.map_id _
  unfold Projection.config newScheduler
  simp only [managerPart, List.map_cons, threads]
  rfl

/-! ## Schedules -/

def byWorker (i : Nat) (a : Manager.WorkerAct) : Move JobAct := .run i (.manager (.worker a)) []

def byCaller (i : Nat) (a : Manager.CallAct) : Move JobAct := .run i (.manager (.call a)) []

/-- The first client makes a scheduler with one worker, which is then thread `worker`. -/
def makeScheduler (worker : Nat) : List (Move JobAct) :=
  [byCaller 0 (.setThreadFactory true), byCaller 0 (.start (some (1, 0))),
    byCaller 0 .setPendingTaskCountMax, byCaller 0 .testStopped, byCaller 0 .lockStart,
    byCaller 0 .newThreads, byCaller 0 .raise, byCaller 0 (.startThread (some 7)),
    byCaller 0 .register, byWorker worker .enter, byWorker worker .announce,
    byCaller 0 .awaitAdded]

/-- The first client adds the job, and the worker begins it. -/
def addAndBegin (worker job : Nat) : List (Move JobAct) :=
  [.run 0 (.addSplitterJob job) [], .run 0 .search [], .run 0 .append [],
    byCaller 0 (.add ⟨job, 0, 0⟩ ⟨fun _ => 0, none⟩ 0), .run 0 .count [],
    byWorker worker (.iterate ⟨fun _ => 0, none⟩), byWorker worker .run]

/-- The last client drops its reference and runs the destructor up to its wait. -/
def dropAndStop : List (Move JobAct) :=
  [.run 0 (.drop .scheduler) [], byCaller 0 (.stop false), byCaller 0 .lockStop,
    byCaller 0 .readCount, byCaller 0 .lower, byCaller 0 .awaitRemoved]

end Threads.Splitter
