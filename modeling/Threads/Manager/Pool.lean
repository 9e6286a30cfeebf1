import Threads.Manager.Counting

/-!
# Growing and shrinking the pool

What each thread contributes to the size of the pool, and how one block moves
these contributions together with `worker_count_`, `worker_max_count_` and
`idle_count_`.
-/

namespace Threads.Manager

open Concurrency

/-! ## Contributions -/

/-- One for a started worker thread that has not run its entry block. -/
def entering : Worker → Nat
  | .entry => 1
  | _ => 0

def refused : Worker → Nat
  | .leaving false => 1
  | _ => 0

/-- One for a worker between its failed test and the end of its exit block. -/
def leaving : Worker → Nat
  | .leaving _ => 1
  | _ => 0

/-- One for a worker that `idle_count_` counts: parked, or woken and not yet resumed. -/
def idle : Worker → Nat
  | .parked | .woken => 1
  | _ => 0

/-- One for a worker inside its loop. -/
def inLoop : Worker → Nat
  | .loop | .parked | .woken | .holding _ | .running _ | .escaped => 1
  | _ => 0

/-- The threads an `AddWorker` call has made room for and not yet started. -/
def toStart : Call → Nat
  | .startThreads objects | .register _ objects => objects.length
  | _ => 0

/-- One for an `AddWorker` call that has raised the limit. -/
def grows : Call → Nat
  | .startThreads _ | .register _ _ | .awaitAdded | .addedParked => 1
  | _ => 0

/-- One for a `RemoveWorker` call that has lowered the limit. -/
def lowered : Call → Nat
  | .awaitRemoved _ | .removedParked _ => 1
  | _ => 0

/-- One for a call that changes the size of the pool: `AddWorker`, `RemoveWorker`,
`Stop`, `Join` and the `Start` of a `SimpleThreadManager`. -/
def resizes : Call → Nat
  | .none | .start .none | .startParked .none | .startWoken .none | .addParked _ | .addWoken _ => 0
  | _ => 1

def startWaits : Call → Nat
  | .startParked _ | .startWoken _ => 1
  | _ => 0

/-- The threads that are to become workers and have not run their entry block. -/
def arriving (ts : List Thread) : Nat := total (onWorker entering) ts + total (onCall toStart) ts

instance : Steady entering := ⟨fun w => by cases w <;> rfl⟩
instance : Steady refused := ⟨fun w => by cases w <;> rfl⟩
instance : Steady leaving := ⟨fun w => by cases w <;> rfl⟩
instance : Steady idle := ⟨fun w => by cases w <;> rfl⟩
instance : Steady inLoop := ⟨fun w => by cases w <;> rfl⟩
instance : SteadyCall toStart := ⟨fun c => by cases c <;> rfl⟩
instance : SteadyCall grows := ⟨fun c => by cases c <;> rfl⟩
instance : SteadyCall lowered := ⟨fun c => by cases c <;> rfl⟩
instance : SteadyCall startWaits := ⟨fun c => by cases c <;> rfl⟩

instance : SteadyCall resizes where
  wake c := by
    cases c with
    | startParked workers => cases workers <;> rfl
    | _ => rfl

/-! ## Blocks of a worker -/

section Worker

variable {s : Impl} {ref : ThreadRef} {w : Worker} {a : WorkerAct} {o : Effect Worker}

theorem workBlock_inLoop (s : Impl) (env : Surroundings) : inLoop (workBlock s env).self = 1 := by
  rcases workBlock_self s env with h | ⟨t, h⟩ | h <;> rw [h] <;> rfl

theorem workBlock_entering (s : Impl) (env : Surroundings) :
    entering (workBlock s env).self = 0 := by
  rcases workBlock_self s env with h | ⟨t, h⟩ | h <;> rw [h] <;> rfl

theorem workBlock_refused (s : Impl) (env : Surroundings) : refused (workBlock s env).self = 0 := by
  rcases workBlock_self s env with h | ⟨t, h⟩ | h <;> rw [h] <;> rfl

theorem workBlock_idle (s : Impl) (env : Surroundings) : idle (workBlock s env).self = 0 := by
  rcases workBlock_self s env with h | ⟨t, h⟩ | h <;> rw [h] <;> rfl

theorem WorkerStep.workerMaxCount (h : WorkerStep s ref w a o) :
    o.shared.workerMaxCount = s.workerMaxCount := by
  cases h with
  | works | wakesAndWorks => exact workBlock_workerMaxCount _ _
  | _ => rfl

theorem WorkerStep.state (h : WorkerStep s ref w a o) : o.shared.state = s.state := by
  cases h with
  | works | wakesAndWorks => exact workBlock_state _ _
  | _ => rfl

/-- A worker takes its place in the room that was made for it. -/
theorem WorkerStep.room (h : WorkerStep s ref w a o) (positive : a = .exit → 0 < s.workerCount) :
    o.shared.workerCount + entering o.self ≤ s.workerCount + entering w := by
  cases h with
  | enters =>
    dsimp only
    split <;> simp [entering]
  | works | wakesAndWorks => simp [workBlock_entering]
  | exited =>
    simp only [exitBlock, decrement_of_pos (positive rfl), entering]
    omega
  | _ => simp [entering, announceBlock]

theorem WorkerStep.entering (h : WorkerStep s ref w a o) : Manager.entering o.self = 0 := by
  cases h with
  | enters =>
    dsimp only
    split <;> rfl
  | works | wakesAndWorks => exact workBlock_entering _ _
  | _ => rfl

theorem WorkerStep.of_entry (h : WorkerStep s ref w a o) : Manager.entering w = 0 ∨ a = .enter := by
  cases h with
  | enters | refused => exact .inr rfl
  | _ => exact .inl rfl

theorem WorkerStep.not_refused (h : WorkerStep s ref w a o) :
    Manager.refused o.self = 0 ∨ a = .enter ∧ w = .entry ∧ s.workerMaxCount ≤ s.workerCount := by
  cases h with
  | enters =>
    dsimp only
    split <;> exact .inl rfl
  | refused noRoom => exact .inr ⟨rfl, rfl, noRoom⟩
  | works | wakesAndWorks => exact .inl (workBlock_refused _ _)
  | _ => exact .inl rfl

theorem WorkerStep.idle (h : WorkerStep s ref w a o) (counted : Manager.idle w ≤ s.idleCount) :
    o.shared.idleCount + Manager.idle w = s.idleCount + Manager.idle o.self := by
  cases h with
  | enters =>
    dsimp only
    split <;> rfl
  | works | wakesAndWorks =>
    simp only [workBlock_idleCount, workBlock_idle]
    simp only [Manager.idle, decrement] at counted ⊢
    try split <;> omega
  | parksAgain | wakesAndLeaves =>
    simp only [Manager.idle, decrement] at counted ⊢
    split <;> omega
  | _ => rfl

/-- A worker leaves its loop only when it finds itself inactive. -/
theorem WorkerStep.inLoop (h : WorkerStep s ref w a o) :
    Manager.inLoop w ≤ Manager.inLoop o.self ∨ s.isActive = false := by
  cases h with
  | leaves inactive | wakesAndLeaves inactive => exact .inr inactive
  | works | wakesAndWorks => exact .inl (Nat.le_of_eq (workBlock_inLoop _ _).symm)
  | enters => exact .inl (Nat.zero_le _)
  | _ => exact .inl (by simp [Manager.inLoop])

theorem WorkerStep.tasks (h : WorkerStep s ref w a o) : o.shared.tasks <:+ s.tasks := by
  cases h with
  | works | wakesAndWorks =>
    obtain ⟨_, _, _, suffix, eq⟩ := workBlock_shared _ _
    rw [eq]
    exact suffix
  | _ => exact List.suffix_refl _

theorem WorkerStep.of_parked (h : WorkerStep s ref w a o) (parked : o.self = .parked) :
    s.workerCount ≤ s.workerMaxCount ∧ o.shared.tasks = [] := by
  have active (empty : s.tasks = []) (active : s.isActive = true) :
      s.workerCount ≤ s.workerMaxCount := by
    simpa [Impl.isActive_iff, empty] using active
  cases h with
  | parks h empty | parksAgain h empty => exact ⟨active empty h, empty⟩
  | works | wakesAndWorks =>
    rcases workBlock_self _ _ with h | ⟨t, h⟩ | h <;> rw [h] at parked <;> cases parked
  | enters =>
    dsimp only at parked
    split at parked <;> cases parked
  | _ => cases parked

/-- A worker notifies nobody on `monitor_`. -/
theorem WorkerStep.signals (h : WorkerStep s ref w a o) (n : Nat) :
    Program.afterSignals Cond.monitor o.signals n = n := by
  have room (s : Impl) : Program.afterSignals Cond.monitor (roomSignals s) n = n := by
    unfold roomSignals
    split <;> rfl
  have working (s : Impl) (env : Surroundings) :
      Program.afterSignals Cond.monitor (workBlock s env).signals n = n := by
    unfold workBlock
    dsimp only
    split
    · rfl
    · split <;> exact room _
  cases h with
  | works | wakesAndWorks => exact working _ _
  | exited =>
    simp only [exitBlock]
    split <;> rfl
  | _ => rfl

end Worker

section Accepted

variable {c : Config Impl Thread Event}

theorem exitsActivated_of_accepted (accepted : total (onWorker refused) c.threads = 0)
    (mv : Move Act) : ExitsActivated c mv := by
  unfold ExitsActivated
  split
  · intro refusedExits
    obtain ⟨t, here, place⟩ := Option.map_eq_some_iff.mp refusedExits
    have present := le_total_of_getElem? (onWorker refused) here
    have one : onWorker refused t = 1 := by simp [onWorker, place, refused]
    omega
  · trivial

/-- An exit block finds its own worker counted. -/
theorem exit_positive (accepted : total (onWorker refused) c.threads = 0)
    (counts : CountsActivated c) {i : Nat} {t : Thread} {ref : ThreadRef}
    {a : WorkerAct} {o : Effect Worker} (here : c.threads[i]? = some t)
    (step : WorkerStep c.shared ref t.worker a o) (exits : a = .exit) :
    0 < c.shared.workerCount := by
  subst exits
  have ok := exitsActivated_of_accepted accepted (.run i (.worker .exit) [])
  have some := le_total_of_getElem? (onWorker activated) here
  unfold CountsActivated at counts
  unfold onWorker at some
  simp only [ExitsActivated, here, Option.map_some] at ok
  generalize t.worker = w at step some ok
  cases step with
  | @exited act =>
    cases act with
    | false => exact absurd rfl ok
    | true =>
      have one : activated (.leaving true) = 1 := rfl
      unfold onWorker at counts
      omega

end Accepted

/-! ## Blocks of a call -/

/-- What a block of a call does to the limit, to the threads it has still to start and
to the notifications owed to parked workers. -/
inductive CallPool (s : Impl) (d : Call) (o : Effect Call) : Prop
  | steady (limit : o.shared.workerMaxCount = s.workerMaxCount) (spawned : o.spawned = [])
      (starting : toStart o.self = toStart d)
      (growing : grows d ≤ grows o.self ∨ s.workerCount = s.workerMaxCount)
      (lowering : lowered d = lowered o.self ∨
        lowered o.self = 0 ∧ s.workerCount = s.workerMaxCount)
      (tasks : o.shared.tasks <:+ s.tasks)
      (signals : ∀ n, Program.afterSignals Cond.monitor o.signals n ≤ n)
  | pushes (limit : o.shared.workerMaxCount = s.workerMaxCount) (spawned : o.spawned = [])
      (before : toStart d = 0 ∧ grows d = 0 ∧ lowered d = 0)
      (after : toStart o.self = 0 ∧ grows o.self = 0 ∧ lowered o.self = 0)
      (signals : o.signals = pushSignals s)
  | raises (objects : List Nat) (place : d = .addWorker objects) (block : o = raiseBlock s objects)
  | starts (object : Nat) (objects : List Nat) (created : Option Nat)
      (place : d = .startThreads (object :: objects))
      (block : o = startThreadBlock s object objects created)
  | lowers (value : Nat) (caller : Caller) (place : d = .removeWorker value caller)
      (limit : o.shared.workerMaxCount = s.workerMaxCount - value)
      (tasks : o.shared.tasks = s.tasks)
      (after : toStart o.self = 0 ∧ grows o.self = 0 ∧ lowered o.self = 1)
      (spawned : o.spawned = []) (signals : o.signals = lowerSignals s value)

section Call

variable {s : Impl} {id : Nat} {d : Call} {a : CallAct} {o : Effect Call}

theorem CallStep.pool (h : CallStep s id d a o) : CallPool s d o := by
  have expiry (env : Surroundings) : (s.removeExpiredTasks env).tasks <:+ s.tasks :=
    ⟨_, removeExpiredTasks_tasks s env⟩
  cases h with
  | @started workers =>
    cases workers <;> exact .steady rfl rfl rfl (.inl (Nat.zero_le _)) (.inl rfl)
      (List.suffix_refl _) fun n => Nat.zero_le n
  | @startAgain workers | @resumeStart workers =>
    unfold startWaitBlock
    split <;> cases workers <;> exact .steady rfl rfl rfl (.inl (Nat.zero_le _)) (.inl rfl)
      (List.suffix_refl _) fun n => Nat.le_refl n
  | raise => exact .raises _ rfl rfl
  | startThread => exact .starts _ _ _ rfl rfl
  | @register thread objects =>
    cases objects <;> exact .steady rfl rfl rfl (.inl (Nat.le_refl _)) (.inl rfl)
      (List.suffix_refl _) fun n => Nat.le_refl n
  | addedParks =>
    exact .steady rfl rfl rfl (.inl (Nat.le_refl _)) (.inl rfl) (List.suffix_refl _)
      fun n => Nat.le_refl n
  | added complete =>
    exact .steady rfl rfl rfl (.inr complete) (.inl rfl) (List.suffix_refl _) fun n => Nat.le_refl n
  | lowers => exact .lowers _ _ rfl rfl rfl ⟨rfl, rfl, rfl⟩ rfl rfl
  | @removed caller complete =>
    cases caller <;> exact .steady rfl rfl rfl (.inl (Nat.zero_le _)) (.inr ⟨rfl, complete⟩)
      (List.suffix_refl _) fun n => Nat.le_refl n
  | addRaised | addParks | addTooMany | removeExpiredTasks =>
    exact .steady rfl rfl rfl (.inl (Nat.zero_le _)) (.inl rfl) (expiry _) fun n => Nat.le_refl n
  | adds | resumesAndAdds => exact .pushes rfl rfl ⟨rfl, rfl, rfl⟩ ⟨rfl, rfl, rfl⟩ rfl
  | remove =>
    obtain ⟨e, eq⟩ := removeBlock_eq s
    rw [eq]
    exact .steady rfl rfl rfl (.inl (Nat.zero_le _)) (.inl rfl) (List.suffix_refl _)
      fun n => Nat.le_refl n
  | removeNextPending =>
    obtain ⟨tasks, es, suffix, eq⟩ := removeNextPendingBlock_eq s
    rw [eq]
    exact .steady rfl rfl rfl (.inl (Nat.zero_le _)) (.inl rfl) suffix fun n => Nat.le_refl n
  | _ =>
    exact .steady rfl rfl rfl (.inl (Nat.zero_le _)) (.inl rfl) (List.suffix_refl _)
      fun n => Nat.le_refl n

/-- The first block of a call that changes the size of the pool. -/
def CallAct.beginsResize : CallAct → Bool
  | .addWorker _ | .removeWorker _ | .stop _ | .start (some _) => true
  | _ => false

theorem CallStep.resizes (h : CallStep s id d a o) :
    Manager.resizes o.self ≤ Manager.resizes d ∨
      Manager.resizes d = 0 ∧ Manager.resizes o.self = 1 ∧ a.beginsResize = true := by
  cases h with
  | startTested => exact .inl (Nat.le_refl _)
  | simpleStart | addWorker | removeWorker | stopTested => exact .inr ⟨rfl, rfl, rfl⟩
  | @started workers => cases workers <;> exact .inl (Nat.le_refl _)
  | @startAgain workers | @resumeStart workers =>
    unfold startWaitBlock
    split <;> cases workers <;> exact .inl (Nat.le_refl _)
  | @raise objects | @register thread objects => cases objects <;> exact .inl (Nat.le_refl _)
  | @startThread object objects created => cases created <;> exact .inl (Nat.le_refl _)
  | @removed caller => cases caller <;> simp [Call.afterRemove, Manager.resizes]
  | remove =>
    obtain ⟨e, eq⟩ := removeBlock_eq s
    rw [eq]
    exact .inl (Nat.le_refl _)
  | removeNextPending =>
    obtain ⟨tasks, es, -, eq⟩ := removeNextPendingBlock_eq s
    rw [eq]
    exact .inl (Nat.le_refl _)
  | _ => exact .inl (by first | exact Nat.le_refl _ | exact Nat.zero_le _)

/-- Nothing makes a manager `STARTING`, so no call comes to wait for its start. -/
theorem CallStep.neverStarting (h : CallStep s id d a o) (calm : s.state ≠ .starting) :
    o.shared.state ≠ .starting ∧ startWaits o.self = 0 := by
  cases h with
  | @started workers => cases workers <;> exact ⟨nofun, rfl⟩
  | @startAgain workers | @resumeStart workers =>
    unfold startWaitBlock
    rw [if_neg calm]
    cases workers <;> exact ⟨calm, rfl⟩
  | @raise objects | @register thread objects => cases objects <;> exact ⟨calm, rfl⟩
  | @startThread object objects created => cases created <;> exact ⟨calm, rfl⟩
  | @removed caller => cases caller <;> exact ⟨calm, rfl⟩
  | @shutsDown join => cases join <;> exact ⟨nofun, rfl⟩
  | finishStop => exact ⟨nofun, rfl⟩
  | remove =>
    obtain ⟨e, eq⟩ := removeBlock_eq s
    rw [eq]
    exact ⟨calm, rfl⟩
  | removeNextPending =>
    obtain ⟨tasks, es, -, eq⟩ := removeNextPendingBlock_eq s
    rw [eq]
    exact ⟨calm, rfl⟩
  | _ => exact ⟨calm, rfl⟩

/-- A lowering `RemoveWorker` notifies every parked worker, as long as `idle_count_`
counts them all. -/
theorem afterSignals_lower {n value : Nat} (counted : n ≤ s.idleCount) :
    Program.afterSignals Cond.monitor (lowerSignals s value) n = 0 := by
  unfold lowerSignals
  split
  · simp only [Program.afterSignals_replicate, if_true]
    omega
  · rfl

theorem afterSignals_push {n : Nat} (counted : n ≤ s.idleCount) :
    Program.afterSignals Cond.monitor (pushSignals s) n = n - 1 := by
  unfold pushSignals
  split
  · rfl
  · simp only [Program.afterSignals_nil]
    omega

end Call

end Threads.Manager
