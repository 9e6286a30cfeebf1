import Threads.Manager.Rank
import Threads.Manager.Growing
import Threads.Manager.Wakeups

/-!
# The manager at rest

Where the threads of a manager stand when nothing goes on by itself any more, and
what has then become of the work and of the calls that wait for workers.
-/

namespace Threads.Manager

open Concurrency

/-- A worker outside any call with no block to run. -/
def Worker.still : Worker → Bool
  | .absent | .parked | .finished | .escaped => true
  | _ => false

/-- A thread that no block of its own takes any further. `NewThread` on a null factory and
the empty list before `startThread` have no block. -/
def Thread.still (s : Impl) (t : Thread) : Bool :=
  match t.call with
  | .none => t.worker.still
  | .startParked _ | .addedParked | .removedParked _ | .startThreads [] => true
  | .addParked r => decide (r.timeout ≤ 0)
  | .newThreads value => !(s.threadFactory || value == 0)
  | _ => false

section Still

variable {s : Impl} {t : Thread}

theorem block_worker_of_still (still : t.worker.still = true)
    (a : WorkerAct) : workerBlock s t.ref t.worker a = none := by
  cases place : t.worker with
  | absent | parked | finished | escaped => cases a <;> rfl
  | _ =>
    rw [place] at still
    cases still

theorem block_call_of_still (begun : t.call ≠ .none) (still : t.still s = true) (id : Nat)
    (a : CallAct) : callBlock s id t.call a = none := by
  unfold Thread.still at still
  split at still
  · exact absurd ‹_› begun
  · rw [‹t.call = _›]
    cases a <;> rfl
  · rw [‹t.call = _›]
    cases a <;> rfl
  · rw [‹t.call = _›]
    cases a <;> rfl
  · rw [‹t.call = _›]
    cases a <;> rfl
  · rename_i r place
    have patient : ¬ 0 < r.timeout := Int.not_lt.mpr (of_decide_eq_true still)
    rw [place]
    cases a with
    | addTimesOut => exact if_neg patient
    | _ => rfl
  · rename_i value place
    have lost : ¬ (s.threadFactory || value == 0) = true := by simpa using still
    rw [place]
    cases a with
    | newThreads => exact if_neg lost
    | _ => rfl
  · cases still

/-- A worker that is not still has a block to run. -/
theorem exists_worker_block (moves : t.worker.still = false) :
    ∃ a, (workerBlock s t.ref t.worker a).isSome = true := by
  cases place : t.worker with
  | entry => exact ⟨.enter, rfl⟩
  | announce => exact ⟨.announce, rfl⟩
  | loop => exact ⟨.iterate ⟨fun _ => 0, none⟩, rfl⟩
  | woken => exact ⟨.resume ⟨fun _ => 0, none⟩, rfl⟩
  | holding => exact ⟨.run, rfl⟩
  | running => exact ⟨.finish false, rfl⟩
  | leaving => exact ⟨.exit, rfl⟩
  | _ =>
    rw [place] at moves
    cases moves

theorem exists_call_block (begun : t.call ≠ .none) (moves : t.still s = false) (id : Nat) :
    ∃ a, (callBlock s id t.call a).isSome = true := by
  unfold Thread.still at moves
  cases place : t.call with
  | none => exact absurd place begun
  | startParked | addedParked | removedParked =>
    rw [place] at moves
    cases moves
  | simpleStart => exact ⟨.setPendingTaskCountMax, rfl⟩
  | testStopped => exact ⟨.testStopped, rfl⟩
  | start => exact ⟨.lockStart, rfl⟩
  | startWoken => exact ⟨.resumeStart, rfl⟩
  | newThreads value =>
    rw [place] at moves
    have found : (s.threadFactory || value == 0) = true := by
      simpa only [Bool.not_eq_false'] using moves
    refine ⟨.newThreads, ?_⟩
    rw [callBlock, if_pos found]
    rfl
  | addWorker => exact ⟨.raise, rfl⟩
  | startThreads objects =>
    cases objects with
    | nil =>
      rw [place] at moves
      cases moves
    | cons object objects => exact ⟨.startThread none, rfl⟩
  | register => exact ⟨.register, rfl⟩
  | awaitAdded => exact ⟨.awaitAdded, rfl⟩
  | removeWorker => exact ⟨.lower, rfl⟩
  | awaitRemoved => exact ⟨.awaitRemoved, rfl⟩
  | stopImpl => exact ⟨.lockStop, rfl⟩
  | readCount => exact ⟨.readCount, rfl⟩
  | finishStop => exact ⟨.finishStop, rfl⟩
  | addParked r =>
    rw [place] at moves
    exact ⟨.addTimesOut, by simpa [callBlock] using moves⟩
  | addWoken => exact ⟨.resumeAdd 0, rfl⟩

/-- A thread has a block of its own: of the call it is in, or of its loop. -/
inductive Moves (s : Impl) (t : Thread) : Prop
  | worker {a} (idle : t.call = .none) (fires : (threadManager.block s t (.worker a)).isSome = true)
  | call {a} (begun : t.call ≠ .none) (fires : (threadManager.block s t (.call a)).isSome = true)

theorem moves_of_not_still (alive : s.terminated = false) (moves : t.still s = false) :
    Moves s t := by
  by_cases idle : t.call = .none
  · have active : t.worker.still = false := by simpa [Thread.still, idle] using moves
    obtain ⟨a, fires⟩ := exists_worker_block (s := s) active
    exact .worker idle (by simpa [threadManager, alive, threadBlock, idle] using fires)
  · have makesCalls : t.worker.makesCalls = true := t.calm.resolve_right idle
    obtain ⟨a, fires⟩ := exists_call_block idle moves t.ref.id
    exact .call idle (by simpa [threadManager, alive, threadBlock, makesCalls] using fires)

end Still

/-- A live process is at rest exactly when all its threads are still. -/
theorem resting_iff {c : Config Impl Thread Event} : threadManager.Resting Continues c ↔
    c.shared.terminated = true ∨ ∀ t ∈ c.threads, t.still c.shared = true := by
  constructor
  · intro rests
    by_contra moves
    simp only [not_or, Bool.not_eq_true, not_forall] at moves
    obtain ⟨alive, t, mem, moves⟩ := moves
    obtain ⟨i, here⟩ := List.mem_iff_getElem?.mp mem
    cases moves_of_not_still alive moves with
    | @worker a idle fires =>
      have blocked := rests.blocked here (a := .worker a) fun _ => trivial
      rw [blocked] at fires
      cases fires
    | @call a begun fires =>
      have blocked := rests.blocked here (a := .call a) fun _ => by
        simpa [Continues, here] using begun
      rw [blocked] at fires
      cases fires
  · intro rests mv c' ok step
    cases step with
    | spurious => exact ok
    | @run i a cs t o ts here fires delivered =>
      rcases rests with terminated | still
      · simp [threadManager, terminated] at fires
      · have still := still t (List.mem_of_getElem? here)
        simp only [threadManager] at fires
        split at fires
        · cases fires
        · cases a with
          | worker a =>
            simp only [threadBlock] at fires
            split at fires
            · rename_i idle
              have place : t.worker.still = true := by simpa [Thread.still, idle] using still
              rw [block_worker_of_still place] at fires
              cases fires
            · cases fires
          | call a =>
            have begun : t.call ≠ .none := by simpa [Continues, here] using ok
            simp only [threadBlock, block_call_of_still begun still] at fires
            split at fires <;> cases fires

/-! ## Places that are never reached -/

/-- An exception that leaves a worker ends the process, and `AddWorker` starts threads only
while it has some to start. -/
structure Sane (c : Config Impl Thread Event) : Prop where
  kept : c.shared.terminated = false → ∀ t ∈ c.threads, t.worker ≠ .escaped
  nonempty : ∀ t ∈ c.threads, t.call ≠ .startThreads []

theorem WorkerStep.terminates {s : Impl} {ref : ThreadRef} {w : Worker} {a : WorkerAct}
    {o : Effect Worker} (h : WorkerStep s ref w a o) (escaped : o.self = .escaped) :
    o.shared.terminated = true := by
  have working {s : Impl} {env : Surroundings} (escaped : (workBlock s env).self = .escaped) :
      (workBlock s env).shared.terminated = true := by
    unfold workBlock at escaped ⊢
    dsimp only at escaped ⊢
    split at escaped
    · rw [if_pos ‹_›]
    · split at escaped <;> cases escaped
  cases h with
  | works | wakesAndWorks => exact working escaped
  | enters =>
    dsimp only at escaped
    split at escaped <;> cases escaped
  | _ => cases escaped

theorem CallStep.nonempty {s : Impl} {id : Nat} {d : Call} {a : CallAct} {o : Effect Call}
    (h : CallStep s id d a o) : o.self ≠ .startThreads [] := by
  have after (workers : Option Nat) : Call.afterStart workers ≠ .startThreads [] := by
    cases workers <;> exact nofun
  have loop (objects : List Nat) : Call.startLoop objects ≠ .startThreads [] := by
    cases objects <;> exact nofun
  cases h with
  | started => exact after _
  | startAgain | resumeStart =>
    unfold startWaitBlock
    split
    · exact nofun
    · exact after _
  | raise | register => exact loop _
  | @startThread object objects created => cases created <;> exact nofun
  | @removed caller => cases caller <;> exact nofun
  | remove =>
    obtain ⟨e, eq⟩ := removeBlock_eq s
    rw [eq]
    exact nofun
  | removeNextPending =>
    obtain ⟨tasks, es, -, eq⟩ := removeNextPendingBlock_eq s
    rw [eq]
    exact nofun
  | _ => exact nofun

theorem sane_step {c c' : Config Impl Thread Event} {mv : Move Act} (h : Sane c)
    (change : Change c mv c') : Sane c' := by
  have asleep {w : Worker} (awake : w.wake = .escaped) : w = .escaped := by
    cases w <;> first | rfl | cases awake
  have idle (d : Call) (other : d ≠ .startThreads []) : d.wake ≠ .startThreads [] := by
    cases d <;> first | exact other | exact nofun
  cases change with
  | @spurious i t here waits =>
    refine ⟨fun alive u mem => ?_, fun u mem => ?_⟩
    · rcases List.mem_or_eq_of_mem_set mem with old | rfl
      · exact h.kept alive u old
      · exact fun escaped => h.kept alive t (List.mem_of_getElem? here) (asleep escaped)
    · rcases List.mem_or_eq_of_mem_set mem with old | rfl
      · exact h.nonempty u old
      · exact idle _ (h.nonempty t (List.mem_of_getElem? here))
  | @worker i a cs t w o ts alive here out place step delivered =>
    have woken := threadManager.deliver_woken delivered
    refine ⟨fun still => ?_, forall_worker idle woken here out o.self h.nonempty⟩
    have own : (t.withWorker out o.self).worker ≠ .escaped := fun escaped => by
      have ended := step.terminates escaped
      rw [show o.shared.terminated = false from still] at ended
      cases ended
    have every := threadManager.forall_run (fun u => u.worker ≠ .escaped)
      (fun u _ kept escaped => kept (asleep escaped)) woken (h.kept alive)
      (t.withWorker out o.self) own [] (fun _ mem => absurd mem List.not_mem_nil) i
    rwa [List.append_nil] at every
  | @call i a cs t d o ts alive here makesCalls place step delivered =>
    have woken := threadManager.deliver_woken delivered
    refine ⟨fun _ => ?_, forall_call idle nofun step woken makesCalls step.nonempty
      fun _ u _ there => h.nonempty u (List.mem_of_getElem? there)⟩
    refine threadManager.forall_run (fun u => u.worker ≠ .escaped)
      (fun u _ kept escaped => kept (asleep escaped)) woken (h.kept alive)
      (t.withCall makesCalls o.self) (h.kept alive t (List.mem_of_getElem? here)) o.spawned ?_ i
    intro u mem
    rcases step.spawned with none | ⟨ref, one⟩
    · rw [none] at mem
      cases mem
    · rw [one, List.mem_singleton] at mem
      rw [mem]
      exact nofun

theorem sane_of_reach {clients : List Nat} {c : Config Impl Thread Event}
    (reach : threadManager.Reach (fresh clients) c) : Sane c := by
  refine reach.invariant ⟨fun _ t mem => ?_, fun t mem => ?_⟩ fun h _ step =>
    sane_step h (change_of_step step)
  · obtain ⟨_, -, rfl⟩ := List.mem_map.mp mem
    exact nofun
  · obtain ⟨_, -, rfl⟩ := List.mem_map.mp mem
    exact nofun

/-! ## Work at rest -/

/-- No task has a worker waiting inside a call of the manager. -/
def TasksReturn (c : Config Impl Thread Event) : Prop :=
  ∀ t ∈ c.threads, t.worker = .absent ∨ t.call = .none

instance : DecidablePred TasksReturn := fun c =>
  inferInstanceAs (Decidable (∀ t ∈ c.threads, _))

/-- The task has been run to its end, discarded as expired, or handed back to a client. -/
def Done (log : List Entry) (task : Nat) : Prop :=
  (∃ i raised, (i, Event.finished task raised) ∈ log) ∨
    (∃ i callback, (i, Event.expired task callback) ∈ log) ∨
      ∃ i runnable, (i, Event.withdrawn task runnable) ∈ log

section AtRest

variable {c : Config Impl Thread Event}

/-- A worker at rest is outside its loop or parked in it. -/
theorem Sane.worker_at_rest (h : Sane c) (alive : c.shared.terminated = false)
    (rests : threadManager.Resting Continues c) (back : TasksReturn c) {t : Thread}
    (mem : t ∈ c.threads) : t.worker = .absent ∨ t.worker = .parked ∨ t.worker = .finished := by
  have still := (resting_iff.mp rests).resolve_left (by simp [alive]) t mem
  rcases back t mem with absent | idle
  · exact .inl absent
  · have kept := h.kept alive t mem
    have place : t.worker.still = true := by simpa [Thread.still, idle] using still
    revert place kept
    cases t.worker <;> simp [Worker.still]

/-- With no worker on its way, those in the loop are the parked ones. -/
theorem Sane.parked_at_rest (h : Sane c) (alive : c.shared.terminated = false)
    (rests : threadManager.Resting Continues c) (back : TasksReturn c) {f : Worker → Nat}
    (absent : f .absent = 0) (finished : f .finished = 0) (one : f .parked ≤ 1) :
    total (onWorker f) c.threads ≤ parked c.threads := by
  apply total_mono
  intro t mem
  unfold onWorker
  rcases h.worker_at_rest alive rests back mem with place | place | place
  · rw [place, absent]
    exact Nat.zero_le _
  · rw [place, parkedIn_of_parked place]
    exact one
  · rw [place, finished]
    exact Nat.zero_le _

theorem Sane.hands_at_rest (h : Sane c) (alive : c.shared.terminated = false)
    (rests : threadManager.Resting Continues c) (back : TasksReturn c) (i : Nat) :
    Program.look Thread.held [] c.threads i = [] ∧
      Program.look Thread.running [] c.threads i = [] := by
  have empty (t : Thread) (mem : t ∈ c.threads) : t.worker.hands = {} := by
    rcases h.worker_at_rest alive rests back mem with place | place | place <;> rw [place] <;> rfl
  constructor
  · exact Program.look_blank (fun t mem => by rw [Thread.held, empty t mem]) i
  · exact Program.look_blank (fun t mem => by rw [Thread.running, empty t mem]) i

/-- A task that was handed to a worker at rest has been run to its end. -/
theorem QueueAccount.done (h : QueueAccount c) (empty : c.shared.tasks = [])
    (hands : ∀ i, Program.look Thread.held [] c.threads i = [] ∧
      Program.look Thread.running [] c.threads i = [])
    {task : Nat} (accepted : task ∈ c.log.filterMap pushedTask) : Done c.log task := by
  rw [h.order, empty, List.map_nil, List.append_nil] at accepted
  obtain ⟨⟨_, fate⟩, taken, rfl⟩ := List.mem_map.mp accepted
  cases fate with
  | handed i =>
    have handed := QueueAccount.mem_handedTo.mpr taken
    rw [h.held i, (hands i).1, List.append_nil, h.running i, (hands i).2, List.append_nil] at handed
    obtain ⟨⟨j, e⟩, mem, eq⟩ := List.mem_filterMap.mp handed
    cases e with
    | finished t raised =>
      simp only [finishedBy, Option.ite_none_right_eq_some, Option.some.injEq] at eq
      exact .inl ⟨j, raised, eq.2 ▸ mem⟩
    | _ => cases eq
  | expired =>
    obtain ⟨⟨j, e⟩, mem, eq⟩ := List.mem_filterMap.mp taken
    cases e with
    | expired t callback =>
      cases eq
      exact .inr (.inl ⟨j, callback, mem⟩)
    | _ => cases eq
  | withdrawn =>
    obtain ⟨⟨j, e⟩, mem, eq⟩ := List.mem_filterMap.mp taken
    cases e with
    | withdrawn t runnable =>
      cases eq
      exact .inr (.inr ⟨j, runnable, mem⟩)
    | _ => cases eq

/-- A worker left in the loop has no task to wait for. -/
theorem PoolAccount.empty_at_rest (h : PoolAccount c) (sane : Sane c)
    (alive : c.shared.terminated = false) (rests : threadManager.Resting Continues c)
    (back : TasksReturn c) (live : ∃ t ∈ c.threads, inLoop t.worker = 1) : c.shared.tasks = [] := by
  have all := sane.parked_at_rest alive rests back (f := inLoop) rfl rfl (Nat.le_refl _)
  obtain ⟨t, mem, looping⟩ := live
  have one := le_total (onWorker inLoop) mem
  unfold onWorker at one
  by_contra queued
  have ahead := h.delivered queued (by unfold onWorker at all; omega)
  omega

end AtRest

/-- When a manager whose pool-size calls have taken turns comes to rest with a worker left
in its loop, its queue is empty and everything it ever accepted is done. -/
theorem work_done_at_rest (clients : List Nat) (c : Config Impl Thread Event)
    (run : threadManager.Run InTurn (fresh clients) c)
    (rests : threadManager.Resting Continues c) (alive : c.shared.terminated = false)
    (back : TasksReturn c) (live : ∃ t ∈ c.threads, inLoop t.worker = 1) :
    c.shared.tasks = [] ∧ ∀ i task, (i, Event.pushed task) ∈ c.log → Done c.log task := by
  have sane := sane_of_reach run.reach
  have empty := (poolAccount_of_run run).empty_at_rest sane alive rests back live
  refine ⟨empty, fun i task pushed => ?_⟩
  apply (queueAccount_of_reach run.reach).done empty (sane.hands_at_rest alive rests back)
  exact List.mem_filterMap.mpr ⟨_, pushed, rfl⟩

/-- A worker runs the one task there is and parks again. -/
def runAndPark : List (Move Act) :=
  [.run 0 (.call (.setThreadFactory true)) [], .run 0 (.call (.start none)) [],
    .run 0 (.call .lockStart) []] ++ addOne 0 7 ++
    [.run 1 (.worker .enter) [], .run 1 (.worker .announce) [], .run 0 (.call .awaitAdded) [],
      .run 1 (.worker (.iterate ⟨fun _ => 0, none⟩)) [],
      .run 0 (.call (.add ⟨10, 0, 0⟩ ⟨fun _ => 0, none⟩ 0)) [1],
      .run 1 (.worker (.resume ⟨fun _ => 0, none⟩)) [], .run 1 (.worker .run) [],
      .run 1 (.worker (.finish true)) [], .run 1 (.worker (.iterate ⟨fun _ => 0, none⟩)) []]

theorem work_done_at_rest_runAndPark : ∃ c, threadManager.Run InTurn (fresh [1]) c ∧
    (0, Event.pushed 0) ∈ c.log ∧ c.shared.tasks = [] ∧
    ∀ i task, (i, Event.pushed task) ∈ c.log → Done c.log task := by
  obtain ⟨c, run, alive, still, back, live, pushed⟩ := threadManager.exists_run InTurn (fresh [1])
    (fun c => c.shared.terminated = false ∧ (∀ t ∈ c.threads, t.still c.shared = true) ∧
      TasksReturn c ∧ (∃ t ∈ c.threads, inLoop t.worker = 1) ∧ (0, Event.pushed 0) ∈ c.log)
    runAndPark (by decide)
  have rests := resting_iff.mpr (.inr still)
  exact ⟨c, run, pushed, work_done_at_rest [1] c run rests alive back live⟩

end Threads.Manager
