import Threads.Manager.Impl

/-!
# `ThreadManager::Worker::Run`

The blocks of a worker thread, in the order of the source: the entry block, the
notification of `worker_monitor_`, one iteration of the loop up to the next wait
or the release of `mutex_`, the task, and the exit block.
-/

namespace Threads.Manager

open Concurrency

/-- The entry block: the worker counts itself if the pool is below its limit. -/
def enterBlock (s : Impl) : Effect Worker :=
  if s.workerCount < s.workerMaxCount then
    { shared := { s with workerCount := s.workerCount + 1 }
      self := if s.workerCount + 1 = s.workerMaxCount then .announce else .loop }
  else { shared := s, self := .leaving false }

def announceBlock (s : Impl) : Effect Worker :=
  { shared := s, self := .loop, signals := [.notify .workerMonitor] }

/-- The notification of `max_monitor_` at the end of an iteration. -/
def roomSignals (s : Impl) : List (Signal Cond) :=
  if s.pendingTaskCountMax ≠ 0 ∧ s.tasks.length ≤ s.pendingTaskCountMax - 1 then
    [.notify .maxMonitor]
  else []

/-- The expiry pass and the dequeue of an active worker. -/
def workBlock (s : Impl) (env : Surroundings) : Effect Worker :=
  let rest := s.removeExpiredTasks env
  if (s.expiry env).raised then
    { shared := { rest with terminated := true }, self := .escaped, events := s.expiryEvents env }
  else
    match rest.tasks with
    | [] =>
      { shared := rest, self := .loop, signals := roomSignals rest, events := s.expiryEvents env }
    | t :: ts =>
      let rest := { rest with tasks := ts }
      { shared := rest
        self := .holding t.begin
        signals := roomSignals rest
        events := s.expiryEvents env ++ [.dequeued t.id] }

/-- The inner `while` and what follows it, once `active` has been computed. -/
def settleBlock (s : Impl) (active : Bool) (env : Surroundings) : Effect Worker :=
  if active then
    if s.tasks.isEmpty then { shared := { s with idleCount := s.idleCount + 1 }, self := .parked }
    else workBlock s env
  else { shared := s, self := .leaving true, events := [.left] }

def iterateBlock (s : Impl) (env : Surroundings) : Effect Worker := settleBlock s s.isActive env

/-- A worker back from `monitor_.Wait()`. -/
def resumeBlock (s : Impl) (env : Surroundings) : Effect Worker :=
  settleBlock { s with idleCount := decrement s.idleCount } s.isActive env

/-- Outside the lock: the task is run only in state `EXECUTING`. -/
def runBlock (s : Impl) (t : Task) : Effect Worker :=
  if t.state = .executing then { shared := s, self := .running t, events := [.ran t.id] }
  else { shared := s, self := .loop }

/-- The runnable has returned or thrown; the worker swallows the exception. -/
def finishBlock (s : Impl) (t : Task) (raised : Bool) : Effect Worker :=
  { shared := s, self := .loop, events := [.finished t.id raised] }

def exitBlock (s : Impl) (ref : ThreadRef) : Effect Worker :=
  let s := { s with
    deadWorkers := s.deadWorkers ++ [ref]
    workerCount := decrement s.workerCount }
  { shared := s
    self := .finished
    signals := if s.workerCount = s.workerMaxCount then [.notify .workerMonitor] else [] }

inductive WorkerAct where
  | enter
  | announce
  | iterate (env : Surroundings)
  | resume (env : Surroundings)
  | run
  | finish (raised : Bool)
  | exit

def workerBlock (s : Impl) (ref : ThreadRef) : Worker → WorkerAct → Option (Effect Worker)
  | .entry, .enter => some (enterBlock s)
  | .announce, .announce => some (announceBlock s)
  | .loop, .iterate env => some (iterateBlock s env)
  | .woken, .resume env => some (resumeBlock s env)
  | .holding t, .run => some (runBlock s t)
  | .running t, .finish raised => some (finishBlock s t raised)
  | .leaving _, .exit => some (exitBlock s ref)
  | _, _ => none

/-- Everything a worker thread can do, branch by branch. -/
inductive WorkerStep (s : Impl) (ref : ThreadRef) : Worker → WorkerAct → Effect Worker → Prop
  | enters (room : s.workerCount < s.workerMaxCount) :
      WorkerStep s ref .entry .enter
        { shared := { s with workerCount := s.workerCount + 1 }
          self := if s.workerCount + 1 = s.workerMaxCount then .announce else .loop }
  | refused (noRoom : s.workerMaxCount ≤ s.workerCount) :
      WorkerStep s ref .entry .enter { shared := s, self := .leaving false }
  | announced : WorkerStep s ref .announce .announce (announceBlock s)
  | parks {env} (active : s.isActive) (empty : s.tasks = []) :
      WorkerStep s ref .loop (.iterate env)
        { shared := { s with idleCount := s.idleCount + 1 }, self := .parked }
  | works {env} (active : s.isActive) (some : s.tasks ≠ []) :
      WorkerStep s ref .loop (.iterate env) (workBlock s env)
  | leaves {env} (inactive : s.isActive = false) :
      WorkerStep s ref .loop (.iterate env)
        { shared := s, self := .leaving true, events := [.left] }
  | parksAgain {env} (active : s.isActive) (empty : s.tasks = []) :
      WorkerStep s ref .woken (.resume env)
        { shared := { s with idleCount := decrement s.idleCount + 1 }, self := .parked }
  | wakesAndWorks {env} (active : s.isActive) (some : s.tasks ≠ []) :
      WorkerStep s ref .woken (.resume env)
        (workBlock { s with idleCount := decrement s.idleCount } env)
  | wakesAndLeaves {env} (inactive : s.isActive = false) :
      WorkerStep s ref .woken (.resume env)
        { shared := { s with idleCount := decrement s.idleCount }
          self := .leaving true
          events := [.left] }
  | ran {t} (executing : t.state = .executing) :
      WorkerStep s ref (.holding t) .run { shared := s, self := .running t, events := [.ran t.id] }
  | skipped {t} (other : t.state ≠ .executing) :
      WorkerStep s ref (.holding t) .run { shared := s, self := .loop }
  | done {t raised} :
      WorkerStep s ref (.running t) (.finish raised)
        { shared := s, self := .loop, events := [.finished t.id raised] }
  | exited {activated} : WorkerStep s ref (.leaving activated) .exit (exitBlock s ref)

theorem workerStep_of_block {s : Impl} {ref : ThreadRef} {w : Worker} {a : WorkerAct}
    {o : Effect Worker} (h : workerBlock s ref w a = some o) : WorkerStep s ref w a o := by
  unfold workerBlock at h
  split at h <;> simp only [Option.some.injEq, reduceCtorEq] at h <;> subst h
  case h_1 =>
    unfold enterBlock
    split
    · exact .enters ‹_›
    · exact .refused (Nat.le_of_not_lt ‹_›)
  case h_2 => exact .announced
  case h_3 env =>
    unfold iterateBlock settleBlock
    split
    · split
      · exact .parks ‹_› (by simpa using ‹s.tasks.isEmpty = true›)
      · exact .works ‹_› (by simpa using ‹¬s.tasks.isEmpty = true›)
    · exact .leaves (by simpa using ‹¬s.isActive = true›)
  case h_4 env =>
    unfold resumeBlock settleBlock
    split
    · split
      · exact .parksAgain ‹_› (by simpa using ‹List.isEmpty _ = true›)
      · exact .wakesAndWorks ‹_› (by simpa using ‹¬List.isEmpty _ = true›)
    · exact .wakesAndLeaves (by simpa using ‹¬s.isActive = true›)
  case h_5 t =>
    unfold runBlock
    split
    · exact .ran ‹_›
    · exact .skipped ‹_›
  case h_6 => exact .done
  case h_7 => exact .exited

/-! ## What a worker leaves alone -/

theorem removeExpiredTasks_tasks (s : Impl) (env : Surroundings) :
    (s.expiry env).expired ++ (s.removeExpiredTasks env).tasks = s.tasks :=
  expirePass_append _ _ _ _ _

/-- An iteration changes the queue and what the pass counts, nothing else. -/
theorem workBlock_shared (s : Impl) (env : Surroundings) :
    ∃ tasks expired terminated, tasks <:+ s.tasks ∧ (workBlock s env).shared =
      { s with tasks := tasks, expiredCount := expired, terminated := terminated } := by
  have suffix : (s.removeExpiredTasks env).tasks <:+ s.tasks := ⟨_, removeExpiredTasks_tasks s env⟩
  unfold workBlock
  dsimp only
  split
  · exact ⟨_, _, _, suffix, rfl⟩
  · split
    · exact ⟨_, _, _, suffix, rfl⟩
    · rename_i t ts queue
      exact ⟨ts, _, _, (List.suffix_cons t ts).trans (queue ▸ suffix), rfl⟩

@[simp] theorem workBlock_workerCount (s : Impl) (env : Surroundings) :
    (workBlock s env).shared.workerCount = s.workerCount := by
  obtain ⟨_, _, _, -, eq⟩ := workBlock_shared s env
  rw [eq]

@[simp] theorem workBlock_workerMaxCount (s : Impl) (env : Surroundings) :
    (workBlock s env).shared.workerMaxCount = s.workerMaxCount := by
  obtain ⟨_, _, _, -, eq⟩ := workBlock_shared s env
  rw [eq]

@[simp] theorem workBlock_idleCount (s : Impl) (env : Surroundings) :
    (workBlock s env).shared.idleCount = s.idleCount := by
  obtain ⟨_, _, _, -, eq⟩ := workBlock_shared s env
  rw [eq]

@[simp] theorem workBlock_state (s : Impl) (env : Surroundings) :
    (workBlock s env).shared.state = s.state := by
  obtain ⟨_, _, _, -, eq⟩ := workBlock_shared s env
  rw [eq]

/-- A working iteration ends at the top of the loop or with a task in hand, unless
the expire callback throws. -/
theorem workBlock_self (s : Impl) (env : Surroundings) :
    (workBlock s env).self = .loop ∨ (∃ t, (workBlock s env).self = .holding t) ∨
      (workBlock s env).self = .escaped := by
  unfold workBlock
  dsimp only
  split
  · exact .inr (.inr rfl)
  · split
    · exact .inl rfl
    · exact .inr (.inl ⟨_, rfl⟩)

/-- A worker starts no thread. -/
theorem WorkerStep.spawned {s : Impl} {ref : ThreadRef} {w : Worker} {a : WorkerAct}
    {o : Effect Worker} (h : WorkerStep s ref w a o) : o.spawned = [] := by
  have working (s : Impl) (env : Surroundings) : (workBlock s env).spawned = [] := by
    unfold workBlock
    dsimp only
    split
    · rfl
    · split <;> rfl
  cases h with
  | works | wakesAndWorks => exact working _ _
  | _ => rfl

/-- What a worker reports. -/
def Event.byWorker : Event → Bool
  | .dequeued _ | .ran _ | .finished _ _ | .calledBack _ | .expired _ _ | .left => true
  | _ => false

theorem byWorker_expiry {s : Impl} {env : Surroundings} {e : Event} (h : e ∈ s.expiryEvents env) :
    e.byWorker = true := by
  rcases Impl.mem_expiryEvents h with ⟨t, rfl⟩ | ⟨t, callback, rfl⟩ <;> rfl

theorem WorkerStep.events {s : Impl} {ref : ThreadRef} {w : Worker} {a : WorkerAct}
    {o : Effect Worker} (h : WorkerStep s ref w a o) : ∀ e ∈ o.events, e.byWorker = true := by
  have working (s : Impl) (env : Surroundings) :
      ∀ e ∈ (workBlock s env).events, e.byWorker = true := by
    unfold workBlock
    dsimp only
    intro e he
    split at he
    · exact byWorker_expiry he
    · split at he
      · exact byWorker_expiry he
      · rcases List.mem_append.mp he with he | he
        · exact byWorker_expiry he
        · rw [List.mem_singleton.mp he]
          rfl
  cases h with
  | works | wakesAndWorks => exact working _ _
  | announced | exited => exact fun _ h => absurd h List.not_mem_nil
  | _ => simp [Event.byWorker]

end Threads.Manager
