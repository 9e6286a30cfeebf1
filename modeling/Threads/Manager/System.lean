import Threads.Concurrency.Run
import Threads.Manager.Calls
import Threads.Manager.Worker

/-!
# The thread manager as a monitor program

Workers and clients run against one `Impl`. What a thread contributes to a
total depends on where it stands in `Worker::Run` or on where it stands in a call.
-/

namespace Threads.Concurrency

/-- Embed the part of a thread that a block changes into the thread. -/
def Outcome.mapSelf {Shared Self Self' Local Event Cond : Type} (f : Self → Self')
    (o : Outcome Shared Self Local Event Cond) : Outcome Shared Self' Local Event Cond where
  shared := o.shared
  self := f o.self
  signals := o.signals
  spawned := o.spawned
  events := o.events

end Threads.Concurrency

namespace Threads.Manager

open Concurrency

inductive Act where
  | worker (a : WorkerAct)
  | call (a : CallAct)

/-- A move of a client or a worker of the manager. -/
abbrev ManagerMove := Move Act

/-! ## Waiting -/

def Worker.waitsOn : Worker → Option Cond
  | .parked => some .monitor
  | _ => none

def Worker.wake : Worker → Worker
  | .parked => .woken
  | w => w

def Call.waitsOn : Call → Option Cond
  | .startParked _ => some .monitor
  | .addParked _ => some .maxMonitor
  | .addedParked | .removedParked _ => some .workerMonitor
  | _ => .none

def Call.wake : Call → Call
  | .startParked workers => .startWoken workers
  | .addParked r => .addWoken r
  | .addedParked => .awaitAdded
  | .removedParked caller => .awaitRemoved caller
  | c => c

@[simp] theorem Worker.wake_awake (w : Worker) : w.wake.waitsOn = none := by cases w <;> rfl

@[simp] theorem Call.wake_awake (c : Call) : c.wake.waitsOn = .none := by cases c <;> rfl

@[simp] theorem Worker.wake_makesCalls (w : Worker) : w.wake.makesCalls = w.makesCalls := by
  cases w <;> rfl

@[simp] theorem Call.wake_eq_none {c : Call} : c.wake = .none ↔ c = .none := by
  cases c <;> simp [Call.wake]

def Thread.waitsOn (t : Thread) : Option Cond := t.worker.waitsOn.or t.call.waitsOn

def Thread.wake (t : Thread) : Thread where
  ref := t.ref
  worker := t.worker.wake
  call := t.call.wake
  calm := by simpa using t.calm

/-! ## The program -/

/-- The thread's place in `Worker::Run`, changed while it is in no call. -/
def Thread.withWorker (t : Thread) (idle : t.call = .none) (w : Worker) : Thread :=
  ⟨t.ref, w, t.call, .inr idle⟩

def Thread.withCall (t : Thread) (makesCalls : t.worker.makesCalls = true) (c : Call) : Thread :=
  ⟨t.ref, t.worker, c, .inl makesCalls⟩

def threadBlock (s : Impl) (t : Thread) : Act → Option (Effect Thread)
  | .worker a =>
    if idle : t.call = .none then
      (workerBlock s t.ref t.worker a).map (.mapSelf (t.withWorker idle))
    else none
  | .call a =>
    if makesCalls : t.worker.makesCalls = true then
      (callBlock s t.ref.id t.call a).map (.mapSelf (t.withCall makesCalls))
    else none

/-- The threads of a process around one `ThreadManager::Impl`. -/
def threadManager : Program Impl Thread Act Event Cond where
  waitsOn := Thread.waitsOn
  wake := Thread.wake
  wake_awake t := by simp [Thread.waitsOn, Thread.wake]
  block s t a := if s.terminated then none else threadBlock s t a

/-- A new manager among clients that have not called it yet. -/
def fresh (clients : List Nat) : Config Impl Thread Event where
  shared := {}
  threads := clients.map fun id => { ref := ⟨0, id⟩ }

/-! ## What a step changes -/

/-- A step is a spurious wakeup, a block of `Worker::Run`, or a block of a call. -/
inductive Change (c : Config Impl Thread Event) : Move Act → Config Impl Thread Event → Prop
  | spurious {i t} (here : c.threads[i]? = some t) (waits : t.waitsOn ≠ none) :
      Change c (.spurious i) { c with threads := c.threads.set i t.wake }
  | worker {i a cs t w o ts} (alive : c.shared.terminated = false) (here : c.threads[i]? = some t)
      (idle : t.call = .none) (place : t.worker = w) (step : WorkerStep c.shared t.ref w a o)
      (delivered : threadManager.deliver o.signals cs c.threads = some ts) :
      Change c (.run i (.worker a) cs)
        ⟨o.shared, ts.set i (t.withWorker idle o.self), c.log ++ o.events.map (Prod.mk i)⟩
  | call {i a cs t d o ts} (alive : c.shared.terminated = false) (here : c.threads[i]? = some t)
      (makesCalls : t.worker.makesCalls = true) (place : t.call = d)
      (step : CallStep c.shared t.ref.id d a o)
      (delivered : threadManager.deliver o.signals cs c.threads = some ts) :
      Change c (.run i (.call a) cs)
        ⟨o.shared, ts.set i (t.withCall makesCalls o.self) ++ o.spawned,
          c.log ++ o.events.map (Prod.mk i)⟩

theorem change_of_step {c c' : Config Impl Thread Event} {mv : Move Act}
    (h : threadManager.Step c mv c') : Change c mv c' := by
  cases h with
  | spurious here waits => exact .spurious here waits
  | @run i a cs t o ts here fires delivered =>
    simp only [threadManager] at fires
    split at fires
    · cases fires
    · rename_i alive
      cases a with
      | worker a =>
        simp only [threadBlock] at fires
        split at fires
        · rename_i idle
          obtain ⟨o, block, rfl⟩ := Option.map_eq_some_iff.mp fires
          have step := workerStep_of_block block
          have next := Change.worker (by simpa using alive) here idle rfl step delivered
          simpa [Outcome.mapSelf, step.spawned] using next
        · cases fires
      | call a =>
        simp only [threadBlock] at fires
        split at fires
        · rename_i makesCalls
          obtain ⟨o, block, rfl⟩ := Option.map_eq_some_iff.mp fires
          exact .call (by simpa using alive) here makesCalls rfl (callStep_of_block block) delivered
        · cases fires

/-! ## Taking a step -/

section Take

variable {c : Config Impl Thread Event} {i : Nat} {t : Thread}

/-- A block of a worker that signals nobody can be taken. -/
theorem step_worker {a : WorkerAct} {o : Effect Worker} (alive : c.shared.terminated = false)
    (here : c.threads[i]? = some t) (idle : t.call = .none)
    (fires : workerBlock c.shared t.ref t.worker a = some o) (silent : o.signals = [])
    (childless : o.spawned = []) :
    threadManager.Step c (.run i (.worker a) [])
      ⟨o.shared, c.threads.set i (t.withWorker idle o.self),
        c.log ++ o.events.map (Prod.mk i)⟩ := by
  have block : threadManager.block c.shared t (.worker a) =
      some (o.mapSelf (t.withWorker idle)) := by
    simp [threadManager, alive, threadBlock, idle, fires]
  have delivered : threadManager.deliver (o.mapSelf (t.withWorker idle)).signals [] c.threads =
      some c.threads := by
    simp only [Outcome.mapSelf, silent]
    rfl
  have next := Program.Step.run here block delivered
  simpa only [Outcome.mapSelf, childless, List.append_nil] using next

theorem step_call {a : CallAct} {o : Effect Call} (alive : c.shared.terminated = false)
    (here : c.threads[i]? = some t) (makesCalls : t.worker.makesCalls = true)
    (fires : callBlock c.shared t.ref.id t.call a = some o) (silent : o.signals = []) :
    threadManager.Step c (.run i (.call a) [])
      ⟨o.shared, c.threads.set i (t.withCall makesCalls o.self) ++ o.spawned,
        c.log ++ o.events.map (Prod.mk i)⟩ := by
  have block : threadManager.block c.shared t (.call a) =
      some (o.mapSelf (t.withCall makesCalls)) := by
    simp [threadManager, alive, threadBlock, makesCalls, fires]
  have delivered : threadManager.deliver (o.mapSelf (t.withCall makesCalls)).signals [] c.threads =
      some c.threads := by
    simp only [Outcome.mapSelf, silent]
    rfl
  exact Program.Step.run here block delivered

end Take

/-! ## Totals over workers and over calls -/

def onWorker (f : Worker → Nat) (t : Thread) : Nat := f t.worker

def onCall (f : Call → Nat) (t : Thread) : Nat := f t.call

/-- A contribution that a notification leaves as it was. -/
class Steady (f : Worker → Nat) : Prop where
  wake : ∀ w, f w.wake = f w

class SteadyCall (f : Call → Nat) : Prop where
  wake : ∀ c, f c.wake = f c

theorem stable_onWorker (f : Worker → Nat) [Steady f] : threadManager.Stable (onWorker f) :=
  fun t _ => Steady.wake t.worker

theorem stable_onCall (f : Call → Nat) [SteadyCall f] : threadManager.Stable (onCall f) :=
  fun t _ => SteadyCall.wake t.call

section Totals

variable {ts us : List Thread} {i : Nat} {t : Thread}

/-- A block of `Worker::Run` moves a total over workers by its own thread. -/
theorem total_worker (f : Worker → Nat) [Steady f] (h : threadManager.Woken ts us)
    (here : ts[i]? = some t) (idle : t.call = .none) (w : Worker) :
    total (onWorker f) (us.set i (t.withWorker idle w)) + f t.worker =
      total (onWorker f) ts + f w := by
  simpa [onWorker, Thread.withWorker] using
    threadManager.total_run (stable_onWorker f) h here (t.withWorker idle w) []

theorem total_worker_call (f : Call → Nat) [SteadyCall f] (h : threadManager.Woken ts us)
    (here : ts[i]? = some t) (idle : t.call = .none) (w : Worker) :
    total (onCall f) (us.set i (t.withWorker idle w)) = total (onCall f) ts := by
  have moved := threadManager.total_run (stable_onCall f) h here (t.withWorker idle w) []
  have same : onCall f (t.withWorker idle w) = onCall f t := rfl
  simp only [List.append_nil, total_nil, same] at moved
  omega

/-- A block of a call moves a total over calls by its own thread. -/
theorem total_call (f : Call → Nat) [SteadyCall f] (h : threadManager.Woken ts us)
    (here : ts[i]? = some t) (makesCalls : t.worker.makesCalls = true) (d : Call)
    (spawned : List Thread) :
    total (onCall f) (us.set i (t.withCall makesCalls d) ++ spawned) + f t.call =
      total (onCall f) ts + f d + total (onCall f) spawned :=
  threadManager.total_run (stable_onCall f) h here (t.withCall makesCalls d) spawned

theorem total_call_worker (f : Worker → Nat) [Steady f] (h : threadManager.Woken ts us)
    (here : ts[i]? = some t) (makesCalls : t.worker.makesCalls = true) (d : Call)
    (spawned : List Thread) :
    total (onWorker f) (us.set i (t.withCall makesCalls d) ++ spawned) =
      total (onWorker f) ts + total (onWorker f) spawned := by
  have moved := threadManager.total_run (stable_onWorker f) h here (t.withCall makesCalls d) spawned
  have same : onWorker f (t.withCall makesCalls d) = onWorker f t := rfl
  rw [same] at moved
  omega

/-- A thread that has just been started is a worker before its entry block. -/
theorem total_started {s : Impl} {id : Nat} {d : Call} {a : CallAct} {o : Effect Call}
    (h : CallStep s id d a o) {f : Thread → Nat}
    (zero : ∀ ref, f { ref := ref, worker := .entry } = 0) : total f o.spawned = 0 := by
  rcases h.spawned with none | ⟨ref, one⟩
  · rw [none, total_nil]
  · rw [one, total_cons, zero, total_nil]

/-- No thread starts with a call, so a block of a call moves a total by its own call alone. -/
theorem CallStep.moves_calls {s : Impl} {id : Nat} {d : Call} {a : CallAct} {o : Effect Call}
    (step : CallStep s id d a o) (f : Call → Nat) [SteadyCall f] (zero : f .none = 0)
    (h : threadManager.Woken ts us) (here : ts[i]? = some t)
    (makesCalls : t.worker.makesCalls = true) :
    total (onCall f) (us.set i (t.withCall makesCalls o.self) ++ o.spawned) + f t.call =
      total (onCall f) ts + f o.self := by
  have moved := total_call f h here makesCalls o.self o.spawned
  rwa [total_started step fun _ => zero, Nat.add_zero] at moved

theorem CallStep.keeps_workers {s : Impl} {id : Nat} {d : Call} {a : CallAct} {o : Effect Call}
    (step : CallStep s id d a o) (f : Worker → Nat) [Steady f] (zero : f .entry = 0)
    (h : threadManager.Woken ts us) (here : ts[i]? = some t)
    (makesCalls : t.worker.makesCalls = true) :
    total (onWorker f) (us.set i (t.withCall makesCalls o.self) ++ o.spawned) =
      total (onWorker f) ts := by
  have moved := total_call_worker f h here makesCalls o.self o.spawned
  rwa [total_started step fun _ => zero, Nat.add_zero] at moved

theorem total_worker_spurious (f : Worker → Nat) [Steady f] (here : ts[i]? = some t)
    (waits : t.waitsOn ≠ none) : total (onWorker f) (ts.set i t.wake) = total (onWorker f) ts :=
  threadManager.total_spurious (stable_onWorker f) here waits

theorem total_call_spurious (f : Call → Nat) [SteadyCall f] (here : ts[i]? = some t)
    (waits : t.waitsOn ≠ none) : total (onCall f) (ts.set i t.wake) = total (onCall f) ts :=
  threadManager.total_spurious (stable_onCall f) here waits

theorem total_fresh (clients : List Nat) {f : Thread → Nat}
    (zero : ∀ id, f { ref := ⟨0, id⟩ } = 0) : total f (fresh clients).threads = 0 :=
  total_eq_zero.mpr fun t ht => by
    obtain ⟨id, -, rfl⟩ := List.mem_map.mp ht
    exact zero id

/-- What holds of the other calls, and of a block's own call afterwards, holds of all. -/
theorem forall_call {p : Call → Prop} (wakes : ∀ d, p d → p d.wake) (none : p .none)
    {s : Impl} {id : Nat} {d : Call} {a : CallAct} {o : Effect Call} (step : CallStep s id d a o)
    (h : threadManager.Woken ts us) (makesCalls : t.worker.makesCalls = true) (own : p o.self)
    (others : ∀ j u, j ≠ i → ts[j]? = some u → p u.call) :
    ∀ u ∈ us.set i (t.withCall makesCalls o.self) ++ o.spawned, p u.call := by
  intro u mem
  rcases threadManager.mem_run h mem with rfl | spawned | ⟨j, v, other, there, woken⟩
  · exact own
  · rcases step.spawned with childless | ⟨ref, one⟩
    · rw [childless] at spawned
      cases spawned
    · rw [one, List.mem_singleton] at spawned
      rw [spawned]
      exact none
  · rcases woken with rfl | ⟨-, rfl⟩
    · exact others j _ other there
    · exact wakes _ (others j v other there)

/-- A block of `Worker::Run` leaves what holds of all calls. -/
theorem forall_worker {p : Call → Prop} (wakes : ∀ d, p d → p d.wake)
    (h : threadManager.Woken ts us)
    (here : ts[i]? = some t) (idle : t.call = .none) (w : Worker) (all : ∀ u ∈ ts, p u.call) :
    ∀ u ∈ us.set i (t.withWorker idle w), p u.call := by
  have own : p (t.withWorker idle w).call := all t (List.mem_of_getElem? here)
  have noneStarted : ∀ u ∈ ([] : List Thread), p u.call := fun _ mem => absurd mem List.not_mem_nil
  have every := threadManager.forall_run (fun u => p u.call) (fun u _ => wakes u.call) h all
    (t.withWorker idle w) own [] noneStarted i
  simpa only [List.append_nil] using every

end Totals

/-! ## Threads parked in one condition variable -/

section Parked

variable {c : Config Impl Thread Event} {i : Nat} {cs : List Nat} {t : Thread} {ts : List Thread}

theorem waitsOn_of_makesCalls {w : Worker} (h : w.makesCalls = true) : w.waitsOn = none := by
  cases w <;> first | rfl | cases h

theorem waitsOn_of_working {t : Thread} (h : t.worker.makesCalls = true) :
    t.waitsOn = t.call.waitsOn := by
  simp [Thread.waitsOn, waitsOn_of_makesCalls h]

theorem waitsOn_of_idle {t : Thread} (h : t.call = .none) : t.waitsOn = t.worker.waitsOn := by
  simp [Thread.waitsOn, h, Call.waitsOn]

/-- What a thread contributes to the number parked in `m`. -/
theorem parkedIn_thread (m : Cond) (t : Thread) :
    threadManager.parkedIn m t = if t.waitsOn = some m then 1 else 0 := rfl

theorem WorkerStep.awake {s : Impl} {ref : ThreadRef} {w : Worker} {a : WorkerAct}
    {o : Effect Worker} (h : WorkerStep s ref w a o) : w.waitsOn = none := by
  cases h <;> rfl

/-- A block of `Worker::Run` leaves in `m` whom its signals leave there, and its own
thread if it parks there. -/
theorem parkedIn_worker (m : Cond) {w : Worker} {a : WorkerAct} {o : Effect Worker}
    (step : WorkerStep c.shared t.ref w a o)
    (delivered : threadManager.deliver o.signals cs c.threads = some ts)
    (here : c.threads[i]? = some t) (idle : t.call = .none) (place : t.worker = w) :
    total (threadManager.parkedIn m) (ts.set i (t.withWorker idle o.self)) =
      Program.afterSignals m o.signals (total (threadManager.parkedIn m) c.threads) +
        if o.self.waitsOn = some m then 1 else 0 := by
  have elsewhere : threadManager.waitsOn t ≠ some m := by
    simp [threadManager, Thread.waitsOn, place, idle, step.awake, Call.waitsOn]
  have moved :=
    threadManager.total_parkedIn_run delivered here elsewhere (t.withWorker idle o.self) []
  have self : threadManager.parkedIn m (t.withWorker idle o.self) =
      if o.self.waitsOn = some m then 1 else 0 := by
    simp [Program.parkedIn, threadManager, Thread.waitsOn, Thread.withWorker, idle, Call.waitsOn]
  rw [self] at moved
  simpa using moved

/-- A block of a call that was not parked in `m` does the same. -/
theorem parkedIn_call (m : Cond) {id : Nat} {d : Call} {a : CallAct} {o : Effect Call}
    (step : CallStep c.shared id d a o)
    (delivered : threadManager.deliver o.signals cs c.threads = some ts)
    (here : c.threads[i]? = some t) (makesCalls : t.worker.makesCalls = true) (place : t.call = d)
    (elsewhere : d.waitsOn ≠ some m) :
    total (threadManager.parkedIn m) (ts.set i (t.withCall makesCalls o.self) ++ o.spawned) =
      Program.afterSignals m o.signals (total (threadManager.parkedIn m) c.threads) +
        if o.self.waitsOn = some m then 1 else 0 := by
  have working := waitsOn_of_makesCalls makesCalls
  have before : threadManager.waitsOn t ≠ some m := by
    simpa [threadManager, Thread.waitsOn, working, place] using elsewhere
  have moved := threadManager.total_parkedIn_run delivered here before
    (t.withCall makesCalls o.self) o.spawned
  have self : threadManager.parkedIn m (t.withCall makesCalls o.self) =
      if o.self.waitsOn = some m then 1 else 0 := by
    simp [Program.parkedIn, threadManager, Thread.waitsOn, Thread.withCall, working]
  have started := total_started step (f := threadManager.parkedIn m) fun _ => rfl
  rw [self, started] at moved
  simpa using moved

end Parked

end Threads.Manager
