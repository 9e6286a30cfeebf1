import Threads.Manager.Stopping

/-!
# Producers waiting for room

An `Add` that finds the queue full waits in `max_monitor_`. A worker that has worked
notifies one of the waiting producers; a client's `RemoveExpiredTasks`, the worker that
leaves last and the end of `StopImpl` notify none.
-/

namespace Threads.Manager

open Concurrency

/-- The producers parked in `max_monitor_` with no notification delivered to them. -/
def waiting (ts : List Thread) : Nat := total (threadManager.parkedIn .maxMonitor) ts

/-- One for a producer that has been woken and has not tested the bound since. -/
def notified : Call → Nat
  | .addWoken _ => 1
  | _ => 0

/-- Whoever waits for room has work to hope for, or another producer has been notified;
and nobody waits once the manager has stopped. -/
structure ProducersServed (c : Config Impl Thread Event) : Prop where
  served : ∀ t ∈ c.threads, t.waitsOn = some .maxMonitor →
    (c.shared.tasks ≠ [] ∧ ∃ w ∈ c.threads, inLoop w.worker = 1) ∨
      ∃ u ∈ c.threads, notified u.call = 1
  stopped : c.shared.state = .stopped → ∀ t ∈ c.threads, t.waitsOn ≠ some .maxMonitor

instance (c : Config Impl Thread Event) : Decidable (ProducersServed c) :=
  decidable_of_iff
    ((∀ t ∈ c.threads, t.waitsOn = some .maxMonitor →
      (c.shared.tasks ≠ [] ∧ ∃ w ∈ c.threads, inLoop w.worker = 1) ∨
        ∃ u ∈ c.threads, notified u.call = 1) ∧
      (c.shared.state = .stopped → ∀ t ∈ c.threads, t.waitsOn ≠ some .maxMonitor))
    ⟨fun ⟨served, stopped⟩ => ⟨served, stopped⟩, fun ⟨served, stopped⟩ => ⟨served, stopped⟩⟩

/-- Producers are parked and none of them is on its way back to the queue. -/
def Unaware (c : Config Impl Thread Event) : Prop :=
  0 < waiting c.threads ∧ total (onCall notified) c.threads = 0

instance : DecidablePred Unaware := fun _ => inferInstanceAs (Decidable (_ ∧ _))

/-- The blocks of `Add` with timeout 0, of `RemoveExpiredTasks`, `Stop` and `Join`. -/
def CallAct.produces : CallAct → Bool
  | .add r _ _ => r.timeout == 0
  | .resumeAdd _ | .removeExpiredTasks _ => true
  | .stop _ | .lockStop | .readCount | .lower | .awaitRemoved | .finishStop => true
  | _ => false

/-- Workers run; clients call `Add`, `RemoveExpiredTasks`, `Stop` and `Join`. -/
def Produces : Move Act → Prop
  | .run _ (.call a) _ => a.produces = true
  | _ => True

instance : DecidablePred Produces
  | .spurious _ | .run _ (.worker _) _ => isTrue trivial
  | .run _ (.call a) _ => inferInstanceAs (Decidable (a.produces = true))

/-- A worker about to test whether it is active. -/
def WorkerAct.tests : WorkerAct → Bool
  | .iterate _ | .resume _ => true
  | _ => false

/-- The pass of a client's `RemoveExpiredTasks` would leave no task. -/
def CallAct.discardsAll (s : Impl) : CallAct → Bool
  | .removeExpiredTasks env => (s.expiry env).rest.isEmpty
  | _ => false

/-- The conditions on a step. While nobody is notified, no client discards all tasks
and the last worker does not leave the loop. With no worker in the loop, the only
notified producer comes back to a queue with room and leaves nobody parked. A stopped
manager has room for those that come back, and stops with no producer parked. -/
def ServesProducers (c : Config Impl Thread Event) : Move Act → Prop
  | .run _ (.worker a) _ => a.tests = true → c.shared.isActive = false → Unaware c →
    1 < total (onWorker inLoop) c.threads
  | .run _ (.call a) _ =>
    (a.discardsAll c.shared = true → ¬ Unaware c) ∧
    (a.resumesAdd = true → total (onWorker inLoop) c.threads = 0 →
      total (onCall notified) c.threads = 1 → waiting c.threads = 0 ∧ c.shared.full = false) ∧
    (a.resumesAdd = true → c.shared.state = .stopped → c.shared.full = false) ∧
    (a.finishesStop = true → waiting c.threads = 0)
  | .spurious _ => True

instance (c : Config Impl Thread Event) : DecidablePred (ServesProducers c)
  | .spurious _ => isTrue trivial
  | .run _ (.worker a) _ => inferInstanceAs (Decidable (a.tests = true → _))
  | .run _ (.call a) _ => inferInstanceAs (Decidable ((a.discardsAll c.shared = true → _) ∧ _))

/-- A started manager with a bounded queue and workers in their loop, with no call in
progress. -/
structure Open (c : Config Impl Thread Event) : Prop where
  started : c.shared.state = .started
  bounded : 0 < c.shared.pendingTaskCountMax
  live : 0 < total (onWorker inLoop) c.threads
  counts : CountsActivated c
  within : c.shared.workerCount ≤ c.shared.workerMaxCount
  entered : ∀ t ∈ c.threads, entering t.worker = 0 ∧ refused t.worker = 0
  idle : ∀ t ∈ c.threads, t.call = .none

instance (c : Config Impl Thread Event) : Decidable (Open c) :=
  decidable_of_iff (c.shared.state = .started ∧ 0 < c.shared.pendingTaskCountMax ∧
    0 < total (onWorker inLoop) c.threads ∧ CountsActivated c ∧
    c.shared.workerCount ≤ c.shared.workerMaxCount ∧
    (∀ t ∈ c.threads, entering t.worker = 0 ∧ refused t.worker = 0) ∧
    ∀ t ∈ c.threads, t.call = .none)
    ⟨fun ⟨a, b, d, e, f, g, h⟩ => ⟨a, b, d, e, f, g, h⟩,
      fun ⟨a, b, d, e, f, g, h⟩ => ⟨a, b, d, e, f, g, h⟩⟩

/-! ## Counting producers -/

/-- A producer in its wait loop is parked or notified. -/
theorem waiting_add_notified (ts : List Thread) :
    waiting ts + total (onCall notified) ts = total (onCall awaitsRoom) ts := by
  unfold waiting
  rw [← total_add]
  apply total_congr
  apply List.forall₂_same.mpr
  intro t _
  simp only [onCall, parkedIn_thread]
  rcases t.calm with working | idle
  · rw [waitsOn_of_working working]
    cases t.call <;> simp [Call.waitsOn, notified, awaitsRoom]
  · rw [waitsOn_of_idle idle, idle]
    cases t.worker <;> simp [Worker.waitsOn, notified, awaitsRoom]

theorem exists_of_inLoop {ts : List Thread} :
    0 < total (onWorker inLoop) ts ↔ ∃ w ∈ ts, inLoop w.worker = 1 := by
  constructor
  · intro some
    obtain ⟨i, t, here, pos⟩ := exists_of_total_pos some
    refine ⟨t, List.mem_of_getElem? here, ?_⟩
    unfold onWorker at pos
    cases place : t.worker <;> simp_all [inLoop]
  · rintro ⟨w, mem, one⟩
    have present := le_total (onWorker inLoop) mem
    unfold onWorker at present ⊢
    omega

theorem exists_of_notified {ts : List Thread} :
    0 < total (onCall notified) ts ↔ ∃ u ∈ ts, notified u.call = 1 := by
  constructor
  · intro some
    obtain ⟨i, t, here, pos⟩ := exists_of_total_pos some
    refine ⟨t, List.mem_of_getElem? here, ?_⟩
    unfold onCall at pos
    cases place : t.call <;> simp_all [notified]
  · rintro ⟨u, mem, one⟩
    have present := le_total (onCall notified) mem
    unfold onCall at present ⊢
    omega

theorem exists_of_waiting {ts : List Thread} :
    0 < waiting ts ↔ ∃ t ∈ ts, t.waitsOn = some .maxMonitor := by
  have one (t : Thread) : 0 < threadManager.parkedIn .maxMonitor t ↔
      t.waitsOn = some .maxMonitor := by
    by_cases h : t.waitsOn = some .maxMonitor <;> simp [Program.parkedIn, threadManager, h]
  constructor
  · intro some
    obtain ⟨i, t, here, pos⟩ := exists_of_total_pos some
    exact ⟨t, List.mem_of_getElem? here, (one t).mp pos⟩
  · rintro ⟨t, mem, waits⟩
    have present := le_total (threadManager.parkedIn .maxMonitor) mem
    have pos := (one t).mpr waits
    unfold waiting
    omega

/-- `ProducersServed` in numbers. -/
theorem producersServed_iff (c : Config Impl Thread Event) : ProducersServed c ↔
    (0 < waiting c.threads → (c.shared.tasks ≠ [] ∧ 0 < total (onWorker inLoop) c.threads) ∨
      0 < total (onCall notified) c.threads) ∧
    (c.shared.state = .stopped → waiting c.threads = 0) := by
  have nobody : waiting c.threads = 0 ↔ ¬ ∃ t ∈ c.threads, t.waitsOn = some .maxMonitor := by
    rw [← exists_of_waiting, Nat.pos_iff_ne_zero, not_not]
  rw [exists_of_inLoop, exists_of_notified, exists_of_waiting, nobody]
  constructor
  · rintro ⟨served, stopped⟩
    exact ⟨fun ⟨t, mem, waits⟩ => served t mem waits,
      fun h ⟨t, mem, waits⟩ => stopped h t mem waits⟩
  · rintro ⟨served, stopped⟩
    exact ⟨fun t mem waits => served ⟨t, mem, waits⟩,
      fun h t mem waits => stopped h ⟨t, mem, waits⟩⟩

/-! ## Blocks -/

theorem tasks_of_full {s : Impl} (full : s.full = true) : s.tasks ≠ [] := by
  simp only [Impl.full, Bool.and_eq_true, decide_eq_true_eq] at full
  intro none
  rw [none] at full
  simp only [List.length_nil] at full
  omega

theorem tasks_of_raised {s : Impl} {env : Surroundings} (raised : (s.expiry env).raised = true) :
    (s.removeExpiredTasks env).tasks ≠ [] :=
  expirePass_raised_rest raised

section Worker

variable {s : Impl} {ref : ThreadRef} {w : Worker} {a : WorkerAct} {o : Effect Worker}

/-- An iteration that empties the queue notifies a producer. -/
theorem workBlock_room (s : Impl) (env : Surroundings) (bounded : 0 < s.pendingTaskCountMax) :
    (workBlock s env).shared.pendingTaskCountMax = s.pendingTaskCountMax ∧
    ((workBlock s env).shared.tasks ≠ [] ∧
        (∀ n, Program.afterSignals .maxMonitor (workBlock s env).signals n ≤ n) ∨
      ∀ n, Program.afterSignals .maxMonitor (workBlock s env).signals n = n - 1) := by
  have fewer (s : Impl) (n : Nat) : Program.afterSignals .maxMonitor (roomSignals s) n ≤ n := by
    unfold roomSignals
    split
    · exact Nat.sub_le n 1
    · exact Nat.le_refl n
  have room {s : Impl} (positive : 0 < s.pendingTaskCountMax) (none : s.tasks = []) (n : Nat) :
      Program.afterSignals .maxMonitor (roomSignals s) n = n - 1 := by
    rw [roomSignals, if_pos ⟨Nat.ne_of_gt positive, by simp [none]⟩]
    rfl
  unfold workBlock
  dsimp only
  split
  · rename_i raised
    exact ⟨rfl, .inl ⟨tasks_of_raised raised, fun n => Nat.le_refl n⟩⟩
  · split
    · rename_i queue
      exact ⟨rfl, .inr (room bounded queue)⟩
    · rename_i t ts queue
      refine ⟨rfl, ?_⟩
      by_cases none : ts = []
      · exact .inr (room bounded none)
      · exact .inl ⟨none, fewer _⟩

/-- A block of a worker leaves the queue alone and notifies no producer, or it is an
iteration that stays in the loop. -/
theorem WorkerStep.room_made (h : WorkerStep s ref w a o) (bounded : 0 < s.pendingTaskCountMax) :
    o.shared.pendingTaskCountMax = s.pendingTaskCountMax ∧
    (o.shared.tasks = s.tasks ∧ (∀ n, Program.afterSignals .maxMonitor o.signals n = n) ∨
      Manager.inLoop o.self = 1 ∧
      (o.shared.tasks ≠ [] ∧ (∀ n, Program.afterSignals .maxMonitor o.signals n ≤ n) ∨
        ∀ n, Program.afterSignals .maxMonitor o.signals n = n - 1)) := by
  cases h with
  | @works env =>
    obtain ⟨same, room⟩ := workBlock_room s env bounded
    exact ⟨same, .inr ⟨workBlock_inLoop _ _, room⟩⟩
  | @wakesAndWorks env =>
    obtain ⟨same, room⟩ := workBlock_room { s with idleCount := decrement s.idleCount } env bounded
    exact ⟨same, .inr ⟨workBlock_inLoop _ _, room⟩⟩
  | exited =>
    refine ⟨rfl, .inl ⟨rfl, fun n => ?_⟩⟩
    unfold exitBlock
    dsimp only
    split <;> rfl
  | _ => exact ⟨rfl, .inl ⟨rfl, fun _ => rfl⟩⟩

/-- A worker leaves the loop at its test, and then only if it finds itself inactive. -/
theorem WorkerStep.leaves_at_test (h : WorkerStep s ref w a o) :
    Manager.inLoop w ≤ Manager.inLoop o.self ∨ a.tests = true ∧ s.isActive = false := by
  cases h with
  | leaves inactive | wakesAndLeaves inactive => exact .inr ⟨rfl, inactive⟩
  | works | wakesAndWorks => exact .inl (Nat.le_of_eq (workBlock_inLoop _ _).symm)
  | enters => exact .inl (Nat.zero_le _)
  | _ => exact .inl (by simp [Manager.inLoop])

theorem WorkerStep.of_inactive (h : WorkerStep s ref w a o) (tests : a.tests = true)
    (inactive : s.isActive = false) :
    Manager.inLoop w = 1 ∧ Manager.inLoop o.self = 0 ∧ o.signals = [] := by
  cases h with
  | leaves | wakesAndLeaves => exact ⟨rfl, rfl, rfl⟩
  | parks active | works active | parksAgain active | wakesAndWorks active =>
    simp [inactive] at active
  | _ => cases tests

end Worker

/-- One for a call that is about to shrink the pool or is shrinking it. -/
def retires : Call → Nat
  | .readCount _ | .removeWorker _ _ | .awaitRemoved _ | .removedParked _ | .finishStop _ _ => 1
  | _ => 0

instance : SteadyCall retires := ⟨fun c => by cases c <;> rfl⟩

/-- What a block of a producer, of `RemoveExpiredTasks` or of `StopImpl` does to the
queue and to those who wait for room in it. -/
inductive CallRoom (s : Impl) (d : Call) (a : CallAct) (o : Effect Call) : Prop
  | aside (tasks : o.shared.tasks = s.tasks) (before : awaitsRoom d = 0)
      (after : awaitsRoom o.self = 0) (other : a.discardsAll s = false ∧ a.resumesAdd = false)
      (ends : o.shared.state = .stopped → s.state = .stopped ∨ a.finishesStop = true)
  | arrives (tasks : o.shared.tasks ≠ []) (before : awaitsRoom d = 0) (opened : s.state = .started)
      (other : a.discardsAll s = false ∧ a.resumesAdd = false) (state : o.shared.state = s.state)
  | resumes (tasks : o.shared.tasks ≠ []) (resume : a.resumesAdd = true)
      (before : notified d = 1 ∧ awaitsRoom d = 1)
      (after : awaitsRoom o.self = if s.full then 1 else 0) (state : o.shared.state = s.state)
  | discards (tasks : a.discardsAll s = true ↔ o.shared.tasks = []) (before : awaitsRoom d = 0)
      (after : awaitsRoom o.self = 0) (other : a.resumesAdd = false)
      (state : o.shared.state = s.state)

section Call

variable {s : Impl} {id : Nat} {d : Call} {a : CallAct} {o : Effect Call}

theorem CallStep.room_used (h : CallStep s id d a o) (produces : a.produces = true) :
    CallRoom s d a o := by
  cases h with
  | addRaised opened raised =>
    exact .arrives (tasks_of_raised raised) rfl opened ⟨rfl, rfl⟩ rfl
  | addParks opened full | addTooMany opened full =>
    exact .arrives (tasks_of_full full) rfl opened ⟨rfl, rfl⟩ rfl
  | adds opened => exact .arrives (by simp [pushed]) rfl opened ⟨rfl, rfl⟩ rfl
  | resumesFull full =>
    exact .resumes (tasks_of_full full) rfl ⟨rfl, rfl⟩ (by rw [if_pos full]; rfl) rfl
  | resumesAndAdds room =>
    exact .resumes (by simp [pushBlock, pushed]) rfl ⟨rfl, rfl⟩
      (by simp [room, Manager.awaitsRoom, pushBlock]) rfl
  | removeExpiredTasks => exact .discards List.isEmpty_iff rfl rfl rfl rfl
  | @shutsDown join =>
    refine .aside rfl rfl rfl ⟨rfl, rfl⟩ fun stopped => ?_
    cases join <;> cases stopped
  | finishStop => exact .aside rfl rfl rfl ⟨rfl, rfl⟩ fun _ => .inr rfl
  | @removed caller => cases caller <;> exact .aside rfl rfl rfl ⟨rfl, rfl⟩ .inl
  | addRefused | stopRefused | stopTested | skipsRemoval | readCount | lowerFails | lowers |
      removedParks => exact .aside rfl rfl rfl ⟨rfl, rfl⟩ .inl
  | _ => cases produces

theorem CallStep.notifies_no_producer (h : CallStep s id d a o) (produces : a.produces = true)
    (n : Nat) : Program.afterSignals .maxMonitor o.signals n = n := by
  have push : Program.afterSignals .maxMonitor (pushSignals s) n = n := by
    unfold pushSignals
    split <;> rfl
  cases h with
  | adds | resumesAndAdds => exact push
  | @lowers value =>
    show Program.afterSignals .maxMonitor (lowerSignals s value) n = n
    unfold lowerSignals
    split
    · rw [Program.afterSignals_replicate]
      rfl
    · rfl
  | addRefused | addRaised | addParks | addTooMany | resumesFull | removeExpiredTasks |
      stopRefused | stopTested | shutsDown | skipsRemoval | readCount | lowerFails |
      removedParks | removed | finishStop => rfl
  | _ => cases produces

/-- While the manager is started, no call shrinks the pool. -/
theorem CallStep.keeps_pool (h : CallStep s id d a o) (produces : a.produces = true)
    (before : s.state = .started → retires d = 0) (after : o.shared.state = .started) :
    s.state = .started ∧ retires o.self = 0 ∧ o.shared.workerMaxCount = s.workerMaxCount := by
  cases h with
  | addRefused closed => exact absurd after closed
  | addRaised opened | addParks opened | addTooMany opened | adds opened => exact ⟨opened, rfl, rfl⟩
  | resumesFull | resumesAndAdds | removeExpiredTasks | stopTested => exact ⟨after, rfl, rfl⟩
  | stopRefused stopped => exact absurd (stopped.symm.trans after) nofun
  | @shutsDown join => cases join <;> cases after
  | skipsRemoval later => rcases later with h | h | h <;> exact absurd (h.symm.trans after) nofun
  | readCount | lowerFails | lowers | removedParks | removed => cases before after
  | finishStop => cases after
  | _ => cases produces

theorem CallStep.keeps_bound (h : CallStep s id d a o) (produces : a.produces = true) :
    o.shared.pendingTaskCountMax = s.pendingTaskCountMax := by
  cases h with
  | simpleStart | setPendingTaskCountMax => cases produces
  | _ => first | rfl | cases produces

theorem CallStep.starts_nobody (h : CallStep s id d a o) (produces : a.produces = true) :
    o.spawned = [] := by
  cases h with
  | startThread => cases produces
  | _ => first | rfl | cases produces

/-- None of these blocks ends a wait of its own thread in `max_monitor_`. -/
theorem CallStep.not_parked (h : CallStep s id d a o) (produces : a.produces = true) :
    d.waitsOn ≠ some .maxMonitor ∧
      (o.self.waitsOn = some .maxMonitor ↔ 0 < Manager.awaitsRoom o.self) := by
  cases h with
  | @removed caller => cases caller <;> simp [Call.waitsOn, Manager.awaitsRoom, Call.afterRemove]
  | addRefused | addRaised | addParks | addTooMany | adds | resumesFull | resumesAndAdds |
      removeExpiredTasks | stopRefused | stopTested | shutsDown | skipsRemoval | readCount |
      lowerFails | lowers | removedParks | finishStop =>
    simp [Call.waitsOn, Manager.awaitsRoom, pushBlock, removeExpiredTasksBlock]
  | _ => cases produces

end Call

/-! ## One step -/

structure ProducerAccount (c : Config Impl Thread Event) : Prop where
  counts : CountsActivated c
  accepted : total (onWorker refused) c.threads = 0
  entered : total (onWorker entering) c.threads = 0
  bounded : 0 < c.shared.pendingTaskCountMax
  live : c.shared.state = .started → c.shared.workerCount ≤ c.shared.workerMaxCount ∧
    0 < total (onWorker inLoop) c.threads ∧ total (onCall retires) c.threads = 0
  served : 0 < waiting c.threads →
    (c.shared.tasks ≠ [] ∧ 0 < total (onWorker inLoop) c.threads) ∨
      0 < total (onCall notified) c.threads
  stopped : c.shared.state = .stopped → waiting c.threads = 0

section Step

variable {c c' : Config Impl Thread Event} {mv : Move Act} {i : Nat} {cs : List Nat} {t : Thread}
variable {ts : List Thread}

theorem waiting_worker {w : Worker} {a : WorkerAct} {o : Effect Worker}
    (step : WorkerStep c.shared t.ref w a o)
    (delivered : threadManager.deliver o.signals cs c.threads = some ts)
    (here : c.threads[i]? = some t) (idle : t.call = .none) (place : t.worker = w) :
    waiting (ts.set i (t.withWorker idle o.self)) =
      Program.afterSignals .maxMonitor o.signals (waiting c.threads) := by
  have parks := parkedIn_worker .maxMonitor step delivered here idle place
  have elsewhere : o.self.waitsOn ≠ some .maxMonitor := by
    cases o.self <;> exact nofun
  rwa [if_neg elsewhere] at parks

theorem waiting_call {a : CallAct} {o : Effect Call}
    (step : CallStep c.shared t.ref.id t.call a o)
    (delivered : threadManager.deliver o.signals cs c.threads = some ts)
    (here : c.threads[i]? = some t) (makesCalls : t.worker.makesCalls = true)
    (produces : a.produces = true) :
    waiting (ts.set i (t.withCall makesCalls o.self) ++ o.spawned) =
      waiting c.threads + if 0 < awaitsRoom o.self then 1 else 0 := by
  obtain ⟨notParked, parksIff⟩ := step.not_parked produces
  have parks := parkedIn_call .maxMonitor step delivered here makesCalls rfl notParked
  simp only [step.notifies_no_producer produces, parksIff] at parks
  exact parks

theorem producerAccount_spurious (h : ProducerAccount c) (here : c.threads[i]? = some t)
    (waits : t.waitsOn ≠ none) : ProducerAccount { c with threads := c.threads.set i t.wake } := by
  have worker (f : Worker → Nat) [Steady f] := total_worker_spurious f here waits
  have call (f : Call → Nat) [SteadyCall f] := total_call_spurious f here waits
  have fewer : waiting (c.threads.set i t.wake) ≤ waiting c.threads :=
    threadManager.total_parkedIn_wake_le .maxMonitor here
  have before := waiting_add_notified c.threads
  have after := waiting_add_notified (c.threads.set i t.wake)
  rw [call awaitsRoom] at after
  refine ⟨?_, ?_, ?_, h.bounded, ?_, ?_, ?_⟩
  · have counts := h.counts
    unfold CountsActivated at counts ⊢
    rwa [worker]
  · rw [worker]
    exact h.accepted
  · rw [worker]
    exact h.entered
  · rw [worker, call]
    exact h.live
  · intro some
    dsimp only at some ⊢
    rw [worker]
    rcases h.served (by omega) with work | notified
    · exact .inl work
    · right
      omega
  · intro stopped
    have none := h.stopped stopped
    dsimp only
    omega

section Worker

variable {a : WorkerAct} {o : Effect Worker}

theorem ProducerAccount.served_worker (h : ProducerAccount c) (here : c.threads[i]? = some t)
    (idle : t.call = .none) (step : WorkerStep c.shared t.ref t.worker a o)
    (delivered : threadManager.deliver o.signals cs c.threads = some ts)
    (ok : ServesProducers c (.run i (.worker a) cs))
    (some : 0 < waiting (ts.set i (t.withWorker idle o.self))) :
    (o.shared.tasks ≠ [] ∧ 0 < total (onWorker inLoop) (ts.set i (t.withWorker idle o.self))) ∨
      0 < total (onCall notified) (ts.set i (t.withWorker idle o.self)) := by
  have woken := threadManager.deliver_woken delivered
  have looping := total_worker inLoop woken here idle o.self
  have parks := waiting_worker step delivered here idle rfl
  have before := waiting_add_notified c.threads
  have after := waiting_add_notified (ts.set i (t.withWorker idle o.self))
  rw [total_worker_call awaitsRoom woken here idle o.self] at after
  have own : inLoop t.worker ≤ total (onWorker inLoop) c.threads :=
    le_total_of_getElem? (onWorker inLoop) here
  rcases (step.room_made h.bounded).2 with ⟨tasks, signals⟩ | ⟨stays, ⟨tasks, signals⟩ | signals⟩
  · rw [signals] at parks
    rcases h.served (parks ▸ some) with ⟨queued, loop⟩ | notified
    · rcases step.leaves_at_test with stays | ⟨tests, inactive⟩
      · exact .inl ⟨tasks ▸ queued, by omega⟩
      · by_cases unaware : total (onCall notified) c.threads = 0
        · have more := ok tests inactive ⟨parks ▸ some, unaware⟩
          have out := step.of_inactive tests inactive
          exact .inl ⟨tasks ▸ queued, by omega⟩
        · right
          omega
    · right
      omega
  · exact .inl ⟨tasks, by omega⟩
  · rw [signals] at parks
    right
    omega

theorem producerAccount_worker (h : ProducerAccount c) (here : c.threads[i]? = some t)
    (idle : t.call = .none) (step : WorkerStep c.shared t.ref t.worker a o)
    (delivered : threadManager.deliver o.signals cs c.threads = some ts)
    (ok : ServesProducers c (.run i (.worker a) cs))
    (counts : CountsActivated ⟨o.shared, ts.set i (t.withWorker idle o.self),
      c.log ++ o.events.map (Prod.mk i)⟩) :
    ProducerAccount ⟨o.shared, ts.set i (t.withWorker idle o.self),
      c.log ++ o.events.map (Prod.mk i)⟩ := by
  have woken := threadManager.deliver_woken delivered
  have worker (f : Worker → Nat) [Steady f] := total_worker f woken here idle o.self
  have present (f : Worker → Nat) : f t.worker ≤ total (onWorker f) c.threads :=
    le_total_of_getElem? (onWorker f) here
  have entered := worker entering
  have looping := worker inLoop
  have accepted := worker refused
  have nobody := h.entered
  have none := h.accepted
  have own := present inLoop
  have parks := waiting_worker step delivered here idle rfl
  obtain ⟨bound, room⟩ := step.room_made h.bounded
  have same : o.shared.state = c.shared.state := step.state
  have limit := step.workerMaxCount
  have fits := step.room (exit_positive h.accepted h.counts here step)
  have notEntry := present entering
  have stillFew : waiting (ts.set i (t.withWorker idle o.self)) ≤ waiting c.threads := by
    rw [parks]
    rcases room with ⟨-, signals⟩ | ⟨-, ⟨-, signals⟩ | signals⟩
    · exact Nat.le_of_eq (signals _)
    · exact signals _
    · rw [signals]
      exact Nat.sub_le _ 1
  refine ⟨counts, ?_, ?_, ?_, ?_, h.served_worker here idle step delivered ok, ?_⟩
  · dsimp only
    rcases step.not_refused with fine | ⟨-, entry, -⟩
    · omega
    · rw [entry] at notEntry
      have one : entering .entry = 1 := rfl
      omega
  · dsimp only
    have zero := step.entering
    omega
  · rw [bound]
    exact h.bounded
  · intro started
    dsimp only at started ⊢
    rw [same] at started
    obtain ⟨within, some, noRetreat⟩ := h.live started
    rw [total_worker_call retires woken here idle o.self]
    refine ⟨by omega, ?_, noRetreat⟩
    rcases step.inLoop with stays | inactive
    · omega
    · rw [Impl.not_isActive_iff] at inactive
      omega
  · intro stopped
    dsimp only at stopped ⊢
    have nobodyWaits := h.stopped (same ▸ stopped)
    omega

end Worker

section Call

variable {a : CallAct} {o : Effect Call}

theorem total_producer (f : Call → Nat) [SteadyCall f]
    (woken : threadManager.Woken c.threads ts) (here : c.threads[i]? = some t)
    (makesCalls : t.worker.makesCalls = true) (nobody : o.spawned = []) :
    total (onCall f) (ts.set i (t.withCall makesCalls o.self) ++ o.spawned) + f t.call =
      total (onCall f) c.threads + f o.self := by
  have moved := total_call f woken here makesCalls o.self o.spawned
  rwa [total_none nobody, Nat.add_zero] at moved

theorem ProducerAccount.served_call (h : ProducerAccount c) (here : c.threads[i]? = some t)
    (makesCalls : t.worker.makesCalls = true) (step : CallStep c.shared t.ref.id t.call a o)
    (delivered : threadManager.deliver o.signals cs c.threads = some ts)
    (produces : a.produces = true) (ok : ServesProducers c (.run i (.call a) cs))
    (some : 0 < waiting (ts.set i (t.withCall makesCalls o.self) ++ o.spawned)) :
    (o.shared.tasks ≠ [] ∧ 0 < total (onWorker inLoop) c.threads) ∨
      0 < total (onCall notified) (ts.set i (t.withCall makesCalls o.self) ++ o.spawned) := by
  have parks := waiting_call step delivered here makesCalls produces
  have before := waiting_add_notified c.threads
  have after := waiting_add_notified (ts.set i (t.withCall makesCalls o.self) ++ o.spawned)
  have rooms := total_producer awaitsRoom (threadManager.deliver_woken delivered) here makesCalls
    (step.starts_nobody produces)
  have own : awaitsRoom t.call ≤ total (onCall awaitsRoom) c.threads :=
    le_total_of_getElem? (onCall awaitsRoom) here
  cases step.room_used produces with
  | aside tasks prior later other =>
    rw [if_neg (by omega)] at parks
    rw [tasks]
    rcases h.served (by omega) with work | notified
    · exact .inl work
    · right
      omega
  | arrives tasks prior opened =>
    exact .inl ⟨tasks, (h.live opened).2.1⟩
  | resumes tasks resume prior later =>
    by_cases loop : total (onWorker inLoop) c.threads = 0
    · right
      by_cases last : total (onCall notified) c.threads = 1
      · obtain ⟨noneParked, room⟩ := ok.2.1 resume loop last
        rw [room] at later
        rw [later] at parks
        simp only [Bool.false_eq_true, if_false, Nat.lt_irrefl] at parks
        omega
      · have atMostOne : (if 0 < awaitsRoom o.self then 1 else 0) ≤ awaitsRoom o.self := by
          split <;> omega
        by_cases full : c.shared.full = true
        · rw [if_pos full] at later
          rw [later] at parks
          simp only [Nat.one_pos, if_true] at parks
          omega
        · rw [if_neg full] at later
          omega
    · exact .inl ⟨tasks, Nat.pos_of_ne_zero loop⟩
  | discards tasks prior later =>
    rw [if_neg (by omega)] at parks
    by_cases unaware : total (onCall notified) c.threads = 0
    · have notAll : ¬ a.discardsAll c.shared = true := fun all => ok.1 all ⟨by omega, unaware⟩
      rcases h.served (by omega) with work | notified
      · exact .inl ⟨fun none => notAll (tasks.mpr none), work.2⟩
      · omega
    · right
      omega

/-- Nobody waits for room once the manager is stopped. -/
theorem ProducerAccount.stopped_call (h : ProducerAccount c) (here : c.threads[i]? = some t)
    (makesCalls : t.worker.makesCalls = true) (step : CallStep c.shared t.ref.id t.call a o)
    (delivered : threadManager.deliver o.signals cs c.threads = some ts)
    (produces : a.produces = true) (ok : ServesProducers c (.run i (.call a) cs))
    (stopped : o.shared.state = .stopped) :
    waiting (ts.set i (t.withCall makesCalls o.self) ++ o.spawned) = 0 := by
  have parks := waiting_call step delivered here makesCalls produces
  cases step.room_used produces with
  | aside tasks prior later other ends =>
    rw [if_neg (by omega)] at parks
    rcases ends stopped with already | finishes
    · have zero := h.stopped already
      omega
    · have zero := ok.2.2.2 finishes
      omega
  | arrives tasks prior opened other state =>
    rw [state, opened] at stopped
    cases stopped
  | resumes tasks resume prior later state =>
    have zero := h.stopped (state ▸ stopped)
    have room := ok.2.2.1 resume (state ▸ stopped)
    rw [room] at later
    rw [later] at parks
    simp only [Bool.false_eq_true, if_false, Nat.lt_irrefl] at parks
    omega
  | discards tasks prior later other state =>
    have zero := h.stopped (state ▸ stopped)
    rw [if_neg (by omega)] at parks
    omega

theorem producerAccount_call (h : ProducerAccount c) (here : c.threads[i]? = some t)
    (makesCalls : t.worker.makesCalls = true) (step : CallStep c.shared t.ref.id t.call a o)
    (delivered : threadManager.deliver o.signals cs c.threads = some ts)
    (produces : a.produces = true) (ok : ServesProducers c (.run i (.call a) cs))
    (counts : CountsActivated ⟨o.shared, ts.set i (t.withCall makesCalls o.self) ++ o.spawned,
      c.log ++ o.events.map (Prod.mk i)⟩) :
    ProducerAccount ⟨o.shared, ts.set i (t.withCall makesCalls o.self) ++ o.spawned,
      c.log ++ o.events.map (Prod.mk i)⟩ := by
  have woken := threadManager.deliver_woken delivered
  have nobody := step.starts_nobody produces
  have worker (f : Worker → Nat) [Steady f] :
      total (onWorker f) (ts.set i (t.withCall makesCalls o.self) ++ o.spawned) =
        total (onWorker f) c.threads := by
    rw [total_call_worker f woken here makesCalls o.self o.spawned, nobody, total_nil, Nat.add_zero]
  refine ⟨counts, ?_, ?_, ?_, ?_, ?_,
    h.stopped_call here makesCalls step delivered produces ok⟩
  · rw [worker]
    exact h.accepted
  · rw [worker]
    exact h.entered
  · rw [step.keeps_bound produces]
    exact h.bounded
  · intro started
    dsimp only at started ⊢
    have calm (opened : c.shared.state = .started) : retires t.call = 0 := by
      have zero := (h.live opened).2.2
      have own : retires t.call ≤ total (onCall retires) c.threads :=
        le_total_of_getElem? (onCall retires) here
      omega
    obtain ⟨opened, still, limit⟩ := step.keeps_pool produces calm started
    obtain ⟨within, some, noRetreat⟩ := h.live opened
    have retreat := total_producer retires woken here makesCalls nobody
    rw [worker, limit, step.counts.1]
    exact ⟨within, some, by omega⟩
  · intro some
    rw [worker]
    exact h.served_call here makesCalls step delivered produces ok some

end Call

theorem producerAccount_step (h : ProducerAccount c) (produces : Produces mv)
    (ok : ServesProducers c mv) (change : Change c mv c') : ProducerAccount c' := by
  have counts := countsActivated_step h.counts (exitsActivated_of_accepted h.accepted mv) change
  cases change with
  | spurious here waits => exact producerAccount_spurious h here waits
  | worker _ here idle place step delivered =>
    subst place
    exact producerAccount_worker h here idle step delivered ok counts
  | call _ here makesCalls place step delivered =>
    subst place
    exact producerAccount_call h here makesCalls step delivered produces ok counts

theorem CallStep.of_finishesStop {s : Impl} {id : Nat} {d : Call} {a : CallAct} {o : Effect Call}
    (h : CallStep s id d a o) (finishes : a.finishesStop = true) :
    o.shared.state = .stopped ∧ Manager.awaitsRoom o.self = 0 := by
  cases h with
  | finishStop => exact ⟨rfl, rfl⟩
  | _ => cases finishes

/-- A step against the conditions leaves a producer behind. -/
theorem producer_abandoned (produces : Produces mv) (bad : ¬ ServesProducers c mv)
    (change : Change c mv c') : ¬ ProducersServed c' := by
  rw [producersServed_iff]
  rintro ⟨served, stopped⟩
  cases change with
  | spurious => exact bad trivial
  | @worker i a cs t w o ts alive here idle place step delivered =>
    subst place
    simp only [ServesProducers, Classical.not_imp, Nat.not_lt] at bad
    obtain ⟨tests, inactive, ⟨some, unaware⟩, last⟩ := bad
    obtain ⟨looped, out, signals⟩ := step.of_inactive tests inactive
    have woken := threadManager.deliver_woken delivered
    have looping := total_worker inLoop woken here idle o.self
    have parks := waiting_worker step delivered here idle rfl
    have before := waiting_add_notified c.threads
    have after := waiting_add_notified (ts.set i (t.withWorker idle o.self))
    rw [total_worker_call awaitsRoom woken here idle] at after
    rw [signals, Program.afterSignals_nil] at parks
    rcases served (by dsimp only; omega) with ⟨-, loop⟩ | notified
    · dsimp only at loop
      omega
    · dsimp only at notified
      omega
  | @call i a cs t d o ts alive here makesCalls place step delivered =>
    subst place
    have woken := threadManager.deliver_woken delivered
    have rooms := step.moves_calls awaitsRoom rfl woken here makesCalls
    have loop := step.keeps_workers inLoop rfl woken here makesCalls
    have parks := waiting_call step delivered here makesCalls produces
    have before := waiting_add_notified c.threads
    have after := waiting_add_notified (ts.set i (t.withCall makesCalls o.self) ++ o.spawned)
    dsimp only at served stopped
    have ends : a.finishesStop = true → waiting c.threads = 0 := by
      intro finishes
      obtain ⟨state, gone⟩ := step.of_finishesStop finishes
      have zero := stopped state
      omega
    apply bad
    cases step.room_used produces with
    | aside tasks prior later other | arrives tasks prior opened other =>
      refine ⟨fun all => ?_, fun resumes => ?_, fun resumes => ?_, ends⟩
      · simp [other.1] at all
      · simp [other.2] at resumes
      · simp [other.2] at resumes
    | discards tasks prior later other state =>
      rw [if_neg (by omega)] at parks
      refine ⟨fun all unaware => ?_, fun resumes => ?_, fun resumes => ?_, ends⟩
      · obtain ⟨some, unaware⟩ := unaware
        rcases served (by omega) with ⟨queued, -⟩ | notified
        · exact queued (tasks.mp all)
        · omega
      · simp [other] at resumes
      · simp [other] at resumes
    | resumes tasks resume prior later state =>
      have own := le_total_of_getElem? (onCall notified) here
      have mine : onCall notified t = 1 := prior.1
      refine ⟨fun all => ?_, fun _ noLoop last => ?_, fun _ atEnd => ?_, ends⟩
      · cases a <;> first | cases all | cases resume
      · by_cases full : c.shared.full = true
        · rw [if_pos full] at later
          rw [later, if_pos Nat.one_pos] at parks
          rcases served (by omega) with ⟨-, some⟩ | some <;> omega
        · rw [if_neg full] at later
          rw [later, if_neg (Nat.lt_irrefl 0)] at parks
          refine ⟨?_, by simpa using full⟩
          by_contra some
          rcases served (by omega) with ⟨-, some⟩ | some <;> omega
      · by_contra full
        rw [Bool.not_eq_false] at full
        rw [if_pos full] at later
        rw [later, if_pos Nat.one_pos] at parks
        have zero := stopped (state.trans atEnd)
        omega

end Step

theorem Open.account {c : Config Impl Thread Event} (h : Open c) : ProducerAccount c := by
  have call (f : Call → Nat) (zero : f .none = 0) : total (onCall f) c.threads = 0 :=
    total_eq_zero.mpr fun t ht => by rw [onCall, h.idle t ht, zero]
  have nobody : waiting c.threads = 0 := by
    have sum := waiting_add_notified c.threads
    have none := call awaitsRoom rfl
    omega
  refine ⟨h.counts, ?_, ?_, h.bounded, fun _ => ⟨h.within, h.live, call retires rfl⟩, ?_,
    fun _ => nobody⟩
  · exact total_eq_zero.mpr fun t ht => (h.entered t ht).2
  · exact total_eq_zero.mpr fun t ht => (h.entered t ht).1
  · intro some
    omega

/-- No producer is ever left behind along a schedule of workers, producers, expiry
passes and shutdowns exactly if all its steps meet the conditions. -/
theorem producers_served_iff (c₀ : Config Impl Thread Event) (opened : Open c₀)
    (mvs : List (Move Act)) (domain : ∀ mv ∈ mvs, Produces mv) :
    threadManager.Throughout ProducersServed c₀ mvs ↔
      threadManager.EachStep ServesProducers c₀ mvs :=
  Program.throughout_iff_within
    (fun (h : ProducerAccount _) => (producersServed_iff _).mpr ⟨h.served, h.stopped⟩)
    (fun h produces ok step => producerAccount_step h produces ok (change_of_step step))
    (fun _ produces bad step => producer_abandoned produces bad (change_of_step step))
    opened.account domain

/-- One worker and a queue with room for one task. -/
def startBounded : List (Move Act) := fillQueue.take 12

/-- A producer fills the queue and waits for room in it. -/
def fillAndWait : List (Move Act) :=
  [.run 0 (.call (.add ⟨10, 0, 5⟩ ⟨fun _ => 100, none⟩ 100)) [],
    .run 0 (.call (.add ⟨11, 0, 0⟩ ⟨fun _ => 100, none⟩ 100)) []]

theorem producers_served_iff_makeRoom : ∃ c₀, Open c₀ ∧
    threadManager.Throughout ProducersServed c₀ (fillAndWait ++
      [.run 2 (.worker (.iterate ⟨fun _ => 100, none⟩)) [0],
        .run 0 (.call (.resumeAdd 100)) []]) := by
  obtain ⟨c₀, -, opened, served⟩ := threadManager.exists_reach (fresh [1, 2])
    (fun c₀ => Open c₀ ∧ threadManager.EachStep ServesProducers c₀ (fillAndWait ++
      [.run 2 (.worker (.iterate ⟨fun _ => 100, none⟩)) [0], .run 0 (.call (.resumeAdd 100)) []]))
    startBounded (by decide)
  exact ⟨c₀, opened, (producers_served_iff c₀ opened _ (by decide)).mpr served⟩

/-- A client discards the expired task that fills the queue and tells no producer. -/
def discardExpired : List (Move Act) :=
  fillAndWait ++ [.run 1 (.call (.removeExpiredTasks ⟨fun _ => 200, none⟩)) []]

/-- A client stops the manager while a producer waits for room. -/
def stopOnProducer : List (Move Act) :=
  fillAndWait ++ [.run 1 (.call (.stop false)) [], .run 1 (.call .lockStop) [],
    .run 1 (.call .readCount) [], .run 1 (.call .lower) [],
    .run 2 (.worker (.iterate ⟨fun _ => 100, none⟩)) [], .run 2 (.worker .exit) [],
    .run 1 (.call .awaitRemoved) [], .run 1 (.call .finishStop) []]

theorem expiry_and_stop_abandon_producer : ∃ c₀, threadManager.Reach (fresh [1, 2]) c₀ ∧ Open c₀ ∧
    (∃ c, threadManager.Run (fun _ mv => Produces mv) c₀ c ∧ c.shared.tasks = [] ∧
      ¬ ProducersServed c) ∧
    ∃ c, threadManager.Run (fun _ mv => Produces mv) c₀ c ∧ c.shared.state = .stopped ∧
      ¬ ProducersServed c := by
  obtain ⟨c₀, reach, opened, discards, stops⟩ := threadManager.exists_reach (fresh [1, 2])
    (fun c₀ => Open c₀ ∧
      (threadManager.execWhile (fun _ mv => Produces mv) c₀ discardExpired).any
        (fun c => decide (c.shared.tasks = [] ∧ ¬ ProducersServed c)) = true ∧
      (threadManager.execWhile (fun _ mv => Produces mv) c₀ stopOnProducer).any
        (fun c => decide (c.shared.state = .stopped ∧ ¬ ProducersServed c)) = true)
    startBounded (by decide)
  exact ⟨c₀, reach, opened, threadManager.exists_run _ c₀ _ discardExpired discards,
    threadManager.exists_run _ c₀ _ stopOnProducer stops⟩

end Threads.Manager
