import Threads.Manager.Shutdown

/-!
# Stopped means stopped

A `Stop` or `Join` that shuts the manager down reads `worker_count_`, removes that
many workers, waits for the pool to be empty and writes `STOPPED`. The invariant
follows such a call from stage to stage.
-/

namespace Threads.Manager

open Concurrency

/-- No worker is left and none can come. -/
structure Emptied (c : Config Impl Thread Event) : Prop where
  noRoom : c.shared.workerMaxCount = 0
  noWorker : c.shared.workerCount = 0
  noArrival : arriving c.threads = 0

def WorkerAct.enters : WorkerAct → Bool
  | .enter => true
  | _ => false

def CallAct.raises : CallAct → Bool
  | .raise => true
  | _ => false

def CallAct.readsCount : CallAct → Bool
  | .readCount => true
  | _ => false

def CallAct.finishesStop : CallAct → Bool
  | .finishStop => true
  | _ => false

/-- The four conditions on a step. An entry block finds room. No `AddWorker` adds room
for a worker once shutdown has begun. The count that `StopImpl` reads is not below the
limit, and every worker there is room for has been through its entry block. A call that
skipped the removal writes `STOPPED` only over `STOPPED`. -/
def StopsCleanly (c : Config Impl Thread Event) : Move Act → Prop
  | .run _ (.worker a) _ => a.enters = true → c.shared.workerCount < c.shared.workerMaxCount
  | .run i (.call a) _ =>
    (a.raises = true →
      c.shared.state.closing = false ∨ (c.threads[i]?).map Thread.call = some (.addWorker [])) ∧
    (a.readsCount = true →
      c.shared.workerMaxCount ≤ c.shared.workerCount ∧ arriving c.threads = 0) ∧
    (a.finishesStop = true →
      c.shared.state = .stopped ∨
        ∀ join, (c.threads[i]?).map Thread.call ≠ some (.finishStop join false))
  | .spurious _ => True

instance (c : Config Impl Thread Event) : DecidablePred (StopsCleanly c)
  | .spurious _ => isTrue trivial
  | .run _ (.worker a) _ => inferInstanceAs (Decidable (a.enters = true → _))
  | .run _ (.call a) _ => inferInstanceAs (Decidable ((a.raises = true → _) ∧ _))

/-- What holds while a call is at a stage of `StopImpl`. -/
def Stage (c : Config Impl Thread Event) : Call → Prop
  | .readCount _ | .finishStop _ false => c.shared.state.closing = true
  | .removeWorker value (.stopImpl _) =>
    c.shared.state.closing = true ∧ c.shared.workerMaxCount ≤ value ∧ arriving c.threads = 0
  | .awaitRemoved (.stopImpl _) | .removedParked (.stopImpl _) =>
    c.shared.state.closing = true ∧ c.shared.workerMaxCount = 0 ∧ arriving c.threads = 0
  | .finishStop _ true => c.shared.state.closing = true ∧ Emptied c
  | _ => True

theorem stage_wake {c : Config Impl Thread Event} {d : Call} (h : Stage c d) : Stage c d.wake := by
  cases d with
  | removedParked caller => cases caller <;> exact h
  | _ => exact h

/-- Once shutdown has begun, the pool only shrinks. -/
structure Shrinks (c c' : Config Impl Thread Event) : Prop where
  closing : c'.shared.state.closing = true
  limit : c'.shared.workerMaxCount ≤ c.shared.workerMaxCount
  arrivals : arriving c'.threads ≤ arriving c.threads
  emptied : c.shared.workerCount = 0 → arriving c.threads = 0 → c'.shared.workerCount = 0

theorem Emptied.mono {c c' : Config Impl Thread Event} (shrinks : Shrinks c c') (h : Emptied c) :
    Emptied c' where
  noRoom := Nat.le_zero.mp (h.noRoom ▸ shrinks.limit)
  noWorker := shrinks.emptied h.noWorker h.noArrival
  noArrival := Nat.le_zero.mp (h.noArrival ▸ shrinks.arrivals)

theorem Stage.mono {c c' : Config Impl Thread Event} {d : Call}
    (shrinks : c.shared.state.closing = true → Shrinks c c') (h : Stage c d) : Stage c' d := by
  unfold Stage at h ⊢
  split at h
  · exact (shrinks h).closing
  · exact (shrinks h).closing
  · obtain ⟨closing, limit, arrivals⟩ := h
    obtain ⟨closing', limit', arrivals', -⟩ := shrinks closing
    exact ⟨closing', by omega, by omega⟩
  · obtain ⟨closing, limit, arrivals⟩ := h
    obtain ⟨closing', limit', arrivals', -⟩ := shrinks closing
    exact ⟨closing', by omega, by omega⟩
  · obtain ⟨closing, limit, arrivals⟩ := h
    obtain ⟨closing', limit', arrivals', -⟩ := shrinks closing
    exact ⟨closing', by omega, by omega⟩
  · exact ⟨(shrinks h.1).closing, h.2.mono (shrinks h.1)⟩
  · trivial

structure StopAccount (c : Config Impl Thread Event) : Prop where
  counts : CountsActivated c
  accepted : total (onWorker refused) c.threads = 0
  within : c.shared.workerCount ≤ c.shared.workerMaxCount ∨ 0 < total (onCall lowered) c.threads
  stages : ∀ t ∈ c.threads, Stage c t.call
  stopped : c.shared.state = .stopped → Emptied c

/-! ## One step -/

section Step

variable {c c' : Config Impl Thread Event} {i : Nat} {cs : List Nat} {t : Thread}
variable {ts : List Thread}

theorem stopAccount_spurious (h : StopAccount c) (here : c.threads[i]? = some t)
    (waits : t.waitsOn ≠ none) : StopAccount { c with threads := c.threads.set i t.wake } := by
  have worker (f : Worker → Nat) [Steady f] := total_worker_spurious f here waits
  have call (f : Call → Nat) [SteadyCall f] := total_call_spurious f here waits
  have same : arriving (c.threads.set i t.wake) = arriving c.threads := by
    rw [arriving, worker, call, arriving]
  have shrinks (closing : c.shared.state.closing = true) :
      Shrinks c { c with threads := c.threads.set i t.wake } :=
    ⟨closing, Nat.le_refl _, Nat.le_of_eq same, fun none _ => none⟩
  refine ⟨?_, ?_, ?_, ?_, fun stopped => (h.stopped stopped).mono (shrinks (by rw [stopped]; rfl))⟩
  · have counts := h.counts
    unfold CountsActivated at counts ⊢
    rwa [worker]
  · rw [worker]
    exact h.accepted
  · rw [call]
    exact h.within
  · intro u hu
    rcases List.mem_or_eq_of_mem_set hu with hu | rfl
    · exact (h.stages u hu).mono shrinks
    · exact stage_wake ((h.stages t (List.mem_of_getElem? here)).mono shrinks)

theorem stopAccount_worker (h : StopAccount c) {a : WorkerAct} {o : Effect Worker}
    (here : c.threads[i]? = some t) (idle : t.call = .none)
    (step : WorkerStep c.shared t.ref t.worker a o)
    (delivered : threadManager.deliver o.signals cs c.threads = some ts)
    (ok : StopsCleanly c (.run i (.worker a) cs))
    (counts : CountsActivated ⟨o.shared, ts.set i (t.withWorker idle o.self),
      c.log ++ o.events.map (Prod.mk i)⟩) :
    StopAccount ⟨o.shared, ts.set i (t.withWorker idle o.self),
      c.log ++ o.events.map (Prod.mk i)⟩ := by
  have woken := threadManager.deliver_woken delivered
  have call (f : Call → Nat) [SteadyCall f] := total_worker_call f woken here idle o.self
  have entered := total_worker entering woken here idle o.self
  have accepted := total_worker refused woken here idle o.self
  have own := le_total_of_getElem? (onWorker entering) here
  have room := step.room (exit_positive h.accepted h.counts here step)
  have none := step.entering
  have limit := step.workerMaxCount
  have found : entering t.worker = 0 ∨ c.shared.workerCount < c.shared.workerMaxCount := by
    rcases step.of_entry with before | rfl
    · exact .inl before
    · exact .inr (ok rfl)
  have one : entering t.worker ≤ 1 := by
    cases t.worker <;> simp [entering]
  have shrinks (closing : c.shared.state.closing = true) : Shrinks c ⟨o.shared,
      ts.set i (t.withWorker idle o.self), c.log ++ o.events.map (Prod.mk i)⟩ := by
    refine ⟨by rw [step.state]; exact closing, Nat.le_of_eq limit, ?_, ?_⟩
    · unfold arriving
      dsimp only
      rw [call toStart]
      omega
    · intro zero nobody
      unfold arriving at nobody
      unfold onWorker at own
      dsimp only
      unfold onWorker at nobody
      omega
  refine ⟨counts, ?_, ?_, ?_, ?_⟩
  · have zero := h.accepted
    rcases step.not_refused with fine | ⟨rfl, -, noRoom⟩
    · dsimp only
      omega
    · exact absurd (ok rfl) (Nat.not_lt.mpr noRoom)
  · dsimp only
    rw [call lowered]
    rcases h.within with within | lowering
    · left
      omega
    · exact .inr lowering
  · have all : ∀ u ∈ c.threads, Stage _ u.call := fun u hu => (h.stages u hu).mono shrinks
    have mine := all t (List.mem_of_getElem? here)
    have next := threadManager.forall_run _ (fun _ _ => stage_wake) woken all
      (t.withWorker idle o.self) mine [] (by simp) i
    simpa using next
  · intro stopped
    dsimp only at stopped
    rw [step.state] at stopped
    exact (h.stopped stopped).mono (shrinks (by rw [stopped]; rfl))

/-- Only the last block of `StopImpl` writes `STOPPED`. -/
theorem CallStep.stops {s : Impl} {id : Nat} {d : Call} {a : CallAct} {o : Effect Call}
    (h : CallStep s id d a o) (stopped : o.shared.state = .stopped) :
    s.state = .stopped ∨ a = .finishStop ∧ ∃ join doStop, d = .finishStop join doStop := by
  cases h with
  | started => cases stopped
  | startAgain | resumeStart =>
    rw [startWaitBlock_shared] at stopped
    exact .inl stopped
  | startThread =>
    rw [startThreadBlock_shared] at stopped
    exact .inl stopped
  | @shutsDown join => cases join <;> cases stopped
  | finishStop => exact .inr ⟨rfl, _, _, rfl⟩
  | remove =>
    rw [removeBlock_shared] at stopped
    exact .inl stopped
  | removeNextPending =>
    obtain ⟨_, -, eq⟩ := removeNextPendingBlock_shared s
    rw [eq] at stopped
    exact .inl stopped
  | _ => exact .inl stopped

theorem CallStep.closing {s : Impl} {id : Nat} {d : Call} {a : CallAct} {o : Effect Call}
    (h : CallStep s id d a o) (closing : s.state.closing = true) :
    o.shared.state.closing = true := by
  cases h.shutdown with
  | neither same | accepts same => rwa [same]
  | opens before =>
    rw [before] at closing
    cases closing
  | closes after => exact after

/-- A call that goes on through `StopImpl` meets the condition of its next stage. -/
theorem CallStep.stage {a : CallAct} {o : Effect Call} {threads : List Thread}
    {log : List (Nat × Event)} (step : CallStep c.shared t.ref.id t.call a o)
    (before : Stage c t.call) (ok : StopsCleanly c (.run i (.call a) cs))
    (shrinks : c.shared.state.closing = true → Shrinks c ⟨o.shared, threads, log⟩) :
    Stage ⟨o.shared, threads, log⟩ o.self := by
  generalize t.call = d at step before
  cases step with
  | @started workers => cases workers <;> trivial
  | @startAgain workers | @resumeStart workers =>
    unfold startWaitBlock
    split <;> cases workers <;> trivial
  | @raise objects | @register thread objects => cases objects <;> trivial
  | @startThread object objects created => cases created <;> trivial
  | @lowers value caller enough =>
    cases caller with
    | client => trivial
    | stopImpl join =>
      obtain ⟨closing, limit, arrivals⟩ := before
      obtain ⟨closing', limit', arrivals', -⟩ := shrinks closing
      exact ⟨closing', Nat.sub_eq_zero_of_le limit, by omega⟩
  | @removedParks caller differ =>
    cases caller with
    | client => trivial
    | stopImpl join => exact Stage.mono shrinks before
  | @removed caller complete =>
    cases caller with
    | client => trivial
    | stopImpl join =>
      obtain ⟨closing, limit, arrivals⟩ := before
      have emptied : Emptied c := ⟨limit, by omega, arrivals⟩
      exact ⟨(shrinks closing).closing, emptied.mono (shrinks closing)⟩
  | @shutsDown join => exact closing_shutdownState join
  | skipsRemoval later =>
    refine (shrinks ?_).closing
    rcases later with state | state | state <;> rw [state] <;> rfl
  | @readCount join =>
    obtain ⟨limit, arrivals⟩ := ok.2.1 rfl
    obtain ⟨closing', -, arrivals', -⟩ := shrinks before
    exact ⟨closing', limit, by omega⟩
  | remove =>
    obtain ⟨e, eq⟩ := removeBlock_eq c.shared
    rw [eq]
    trivial
  | removeNextPending =>
    obtain ⟨tasks, es, -, eq⟩ := removeNextPendingBlock_eq c.shared
    rw [eq]
    trivial
  | _ => trivial

/-- While no limit is raised, a call starts no more threads than it was to start. -/
theorem CallStep.arrivals {a : CallAct} {o : Effect Call}
    (step : CallStep c.shared t.ref.id t.call a o) (here : c.threads[i]? = some t)
    (ok : StopsCleanly c (.run i (.call a) cs)) (closing : c.shared.state.closing = true) :
    o.shared.workerMaxCount ≤ c.shared.workerMaxCount ∧
      toStart o.self + total (onWorker entering) o.spawned ≤ toStart t.call := by
  cases step.pool with
  | steady limit spawned same =>
    rw [total_none spawned]
    omega
  | pushes limit spawned before after =>
    rw [total_none spawned]
    omega
  | raises objects place block =>
    have raising : a = .raise := by
      rw [place] at step
      cases step
      rfl
    subst raising
    rcases ok.1 rfl with opened | none
    · simp [closing] at opened
    · simp only [here, Option.map_some, place, Option.some.injEq, Call.addWorker.injEq] at none
      subst none block
      exact ⟨Nat.le_refl _, Nat.zero_le _⟩
  | starts object objects created place block =>
    rw [place, block]
    refine ⟨by cases created <;> exact Nat.le_refl _, ?_⟩
    cases created <;> simp [startThreadBlock, toStart, onWorker, entering]
  | lowers value caller place limit _ after spawned =>
    rw [total_none spawned]
    omega

/-- Workers beyond the limit are removed by a call that goes on waiting for them. -/
theorem CallStep.within_limit {s : Impl} {id : Nat} {d : Call} {a : CallAct} {o : Effect Call}
    {n n' : Nat} (step : CallStep s id d a o) (moved : n' + lowered d = n + lowered o.self)
    (within : s.workerCount ≤ s.workerMaxCount ∨ 0 < n) :
    o.shared.workerCount ≤ o.shared.workerMaxCount ∨ 0 < n' := by
  have counted := step.counts.1
  rcases within with within | before
  · cases step.pool with
    | steady limit => left; omega
    | pushes limit => left; omega
    | raises objects place block =>
      rw [block] at counted ⊢
      simp only [raiseBlock] at counted ⊢
      omega
    | starts object objects created place block =>
      left
      rw [block] at counted ⊢
      cases created <;> simp only [startThreadBlock] at counted ⊢ <;> omega
    | lowers _ _ place _ _ after =>
      have zero : lowered d = 0 := by rw [place]; rfl
      right
      omega
  · cases step.pool with
    | steady limit _ _ _ lower =>
      rcases lower with same | ⟨_, complete⟩ <;> omega
    | pushes _ _ prior after => omega
    | raises objects place block =>
      have zero : lowered d = 0 := by rw [place]; rfl
      omega
    | starts object objects created place block =>
      have zero : lowered d = 0 := by rw [place]; rfl
      omega
    | lowers _ _ place _ _ after =>
      have zero : lowered d = 0 := by rw [place]; rfl
      omega

theorem stopAccount_call (h : StopAccount c) {a : CallAct} {o : Effect Call}
    (here : c.threads[i]? = some t) (makesCalls : t.worker.makesCalls = true)
    (step : CallStep c.shared t.ref.id t.call a o)
    (delivered : threadManager.deliver o.signals cs c.threads = some ts)
    (ok : StopsCleanly c (.run i (.call a) cs))
    (counts : CountsActivated ⟨o.shared, ts.set i (t.withCall makesCalls o.self) ++ o.spawned,
      c.log ++ o.events.map (Prod.mk i)⟩) :
    StopAccount ⟨o.shared, ts.set i (t.withCall makesCalls o.self) ++ o.spawned,
      c.log ++ o.events.map (Prod.mk i)⟩ := by
  have woken := threadManager.deliver_woken delivered
  have call (f : Call → Nat) [SteadyCall f] (zero : f .none = 0) :=
    step.moves_calls f zero woken here makesCalls
  have entered := total_call_worker entering woken here makesCalls o.self o.spawned
  have starting := call toStart rfl
  have counted := step.counts.1
  have own := h.stages t (List.mem_of_getElem? here)
  have shrinks (closing : c.shared.state.closing = true) : Shrinks c ⟨o.shared,
      ts.set i (t.withCall makesCalls o.self) ++ o.spawned,
      c.log ++ o.events.map (Prod.mk i)⟩ := by
    obtain ⟨limit, arrivals⟩ := step.arrivals here ok closing
    refine ⟨step.closing closing, limit, ?_, fun zero _ => counted.trans zero⟩
    unfold arriving
    dsimp only
    omega
  refine ⟨counts, ?_, ?_, ?_, ?_⟩
  · exact (step.keeps_workers refused rfl woken here makesCalls).trans h.accepted
  · exact step.within_limit (call lowered rfl) h.within
  · have all : ∀ u ∈ c.threads, Stage _ u.call := fun u hu => (h.stages u hu).mono shrinks
    refine threadManager.forall_run _ (fun _ _ => stage_wake) woken all _
      (step.stage own ok shrinks) o.spawned ?_ i
    rcases step.spawned with none | ⟨ref, one⟩
    · simp [none]
    · simp [one, Stage]
  · intro stopped
    rcases step.stops stopped with before | ⟨rfl, join, doStop, place⟩
    · exact (h.stopped before).mono (shrinks (by rw [before]; rfl))
    · cases doStop with
      | false =>
        rcases ok.2.2 rfl with before | other
        · exact (h.stopped before).mono (shrinks (by rw [before]; rfl))
        · exact absurd (by rw [here, Option.map_some, place]) (other join)
      | true =>
        rw [place] at own
        exact own.2.mono (shrinks own.1)

theorem stopAccount_step {mv : Move Act} (h : StopAccount c) (ok : StopsCleanly c mv)
    (change : Change c mv c') : StopAccount c' := by
  have counts := countsActivated_step h.counts (exitsActivated_of_accepted h.accepted mv) change
  cases change with
  | spurious here waits => exact stopAccount_spurious h here waits
  | worker _ here idle place step delivered =>
    subst place
    exact stopAccount_worker h here idle step delivered ok counts
  | call _ here makesCalls place step delivered =>
    subst place
    exact stopAccount_call h here makesCalls step delivered ok counts

end Step

theorem stopAccount_fresh (clients : List Nat) : StopAccount (fresh clients) where
  counts := countsActivated_fresh clients
  accepted := total_fresh clients fun _ => rfl
  within := .inl (Nat.le_refl _)
  stages t ht := by
    obtain ⟨_, -, rfl⟩ := List.mem_map.mp ht
    trivial
  stopped := nofun

theorem stopAccount_of_run {clients : List Nat} {c : Config Impl Thread Event}
    (run : threadManager.Run StopsCleanly (fresh clients) c) : StopAccount c :=
  run.invariant (stopAccount_fresh clients) fun h ok step =>
    stopAccount_step h ok (change_of_step step)

/-! ## Runs -/

/-- No worker thread is inside `Worker::Run`, and no call is about to start one. -/
def Quiescent (c : Config Impl Thread Event) : Prop :=
  ∀ t ∈ c.threads, (t.worker = .absent ∨ t.worker = .finished) ∧ toStart t.call = 0

theorem outside {w : Worker} (activated : activated w = 0) (refused : refused w = 0)
    (entering : entering w = 0) : w = .absent ∨ w = .finished := by
  cases w with
  | absent => exact .inl rfl
  | finished => exact .inr rfl
  | entry => cases entering
  | leaving counted =>
    cases counted with
    | false => cases refused
    | true => cases activated
  | _ => cases activated

theorem StopAccount.quiescent {c : Config Impl Thread Event} (h : StopAccount c)
    (emptied : Emptied c) : Quiescent c := by
  have counts := h.counts
  have nobody := emptied.noArrival
  unfold CountsActivated at counts
  unfold arriving at nobody
  rw [emptied.noWorker] at counts
  intro t ht
  have active := total_eq_zero.mp counts.symm t ht
  have refusals := total_eq_zero.mp h.accepted t ht
  have entries := total_eq_zero.mp (Nat.eq_zero_of_add_eq_zero_right nobody) t ht
  exact ⟨outside active refusals entries,
    total_eq_zero.mp (Nat.eq_zero_of_add_eq_zero_left nobody) t ht⟩

theorem Change.stopped {c c' : Config Impl Thread Event} {mv : Move Act} (change : Change c mv c')
    (stopped : c.shared.state = .stopped) : c'.shared.state = .stopped := by
  cases change with
  | spurious => exact stopped
  | worker _ _ _ _ step => exact step.state.trans stopped
  | call _ _ _ _ step =>
    cases step with
    | started fresh | shutsDown first => simp_all
    | startAgain | resumeStart => rwa [startWaitBlock_shared]
    | startThread => rwa [startThreadBlock_shared]
    | finishStop => rfl
    | remove => rwa [removeBlock_shared]
    | removeNextPending =>
      obtain ⟨_, -, eq⟩ := removeNextPendingBlock_shared c.shared
      rwa [eq]
    | _ => exact stopped

/-- A `Stop` or a `Join` returns. -/
def Event.returnsStop : Event → Bool
  | .returned .stop | .returned .join => true
  | _ => false

theorem Change.returnsStop {c c' : Config Impl Thread Event} {mv : Move Act}
    (change : Change c mv c')
    {e : Nat × Event} (he : e ∈ c'.log.drop c.log.length) (returns : e.2.returnsStop = true) :
    c'.shared.state = .stopped := by
  cases change with
  | spurious => simp at he
  | worker _ _ _ _ step =>
    rw [List.drop_left] at he
    obtain ⟨e, mem, rfl⟩ := List.mem_map.mp he
    have own := step.events e mem
    cases e <;> simp_all [Event.byWorker, Event.returnsStop]
  | call _ _ _ _ step =>
    rw [List.drop_left] at he
    obtain ⟨e, mem, rfl⟩ := List.mem_map.mp he
    cases e with
    | returned op => cases op <;> first | exact step.reports mem | cases returns
    | _ => cases returns

/-- In a run whose steps all meet the conditions, a manager in state `STOPPED` has no
worker inside `Worker::Run` and never has one again, and `Stop` and `Join` return in
that state only. -/
theorem stopped_means_stopped (clients : List Nat) (c : Config Impl Thread Event)
    (run : threadManager.Run StopsCleanly (fresh clients) c) :
    (c.shared.state = .stopped → Quiescent c ∧
      ∀ c', threadManager.Run StopsCleanly c c' → c'.shared.state = .stopped ∧ Quiescent c') ∧
    ∀ mv c', StopsCleanly c mv → threadManager.Step c mv c' →
      (∃ e ∈ c'.log.drop c.log.length, e.2.returnsStop = true) →
      c'.shared.state = .stopped ∧ Quiescent c' := by
  have quiet {c : Config Impl Thread Event} (run : threadManager.Run StopsCleanly (fresh clients) c)
      (stopped : c.shared.state = .stopped) : Quiescent c := by
    have h := stopAccount_of_run run
    exact h.quiescent (h.stopped stopped)
  refine ⟨fun stopped => ⟨quiet run stopped, fun c' later => ?_⟩, fun mv c' ok step returns => ?_⟩
  · have still : c'.shared.state = .stopped :=
      later.invariant stopped fun h _ step => (change_of_step step).stopped h
    exact ⟨still, quiet (run.trans later) still⟩
  · obtain ⟨e, he, returns⟩ := returns
    have stopped := (change_of_step step).returnsStop he returns
    exact ⟨stopped, quiet (.tail run ok step) stopped⟩

/-- A pool of one worker is started, joined by one client and so stopped. -/
def startAndJoin : List (Move Act) :=
  [.run 0 (.call (.setThreadFactory true)) [], .run 0 (.call (.start (some (1, 0)))) [],
    .run 0 (.call .setPendingTaskCountMax) [], .run 0 (.call .testStopped) [],
    .run 0 (.call .lockStart) [], .run 0 (.call .newThreads) [], .run 0 (.call .raise) [],
    .run 0 (.call (.startThread (some 7))) [], .run 2 (.worker .enter) [],
    .run 2 (.worker .announce) [], .run 0 (.call .register) [], .run 0 (.call .awaitAdded) [],
    .run 0 (.call (.stop true)) [], .run 0 (.call .lockStop) [], .run 0 (.call .readCount) [],
    .run 0 (.call .lower) [], .run 2 (.worker (.iterate ⟨fun _ => 0, none⟩)) [],
    .run 2 (.worker .exit) [], .run 0 (.call .awaitRemoved) []]

theorem stopped_means_stopped_startAndJoin : ∃ c c',
    threadManager.Step c (.run 0 (.call .finishStop) []) c' ∧
      c'.log.getLast? = some (0, .returned .join) ∧ c'.shared.state = .stopped ∧ Quiescent c' := by
  obtain ⟨c, run, ok, next⟩ := threadManager.exists_run StopsCleanly (fresh [1, 2])
    (fun c => StopsCleanly c (.run 0 (.call .finishStop) []) ∧
      (threadManager.step c (.run 0 (.call .finishStop) [])).any (fun c' =>
        decide (c'.log.getLast? = some (0, .returned .join) ∧
          ∃ e ∈ c'.log.drop c.log.length, e.2.returnsStop = true)) = true) startAndJoin (by decide)
  obtain ⟨c', step, returned⟩ := (Option.any_eq_true _ _).mp next
  obtain ⟨last, returns⟩ := of_decide_eq_true returned
  exact ⟨c, c', threadManager.step_iff.mp step, last,
    (stopped_means_stopped [1, 2] c run).2 _ c' ok (threadManager.step_iff.mp step) returns⟩

/-- While a `Join` waits for the worker to drain the queue, another client's `Stop`
finds state `JOINING`, writes `STOPPED` and returns. -/
def stopWhileJoining : List (Move Act) :=
  startAndJoin.take 14 ++
    [.run 1 (.call (.stop false)) [], .run 1 (.call .lockStop) [], .run 1 (.call .finishStop) []]

theorem stop_returns_with_workers : ∃ c, threadManager.Reach (fresh [1, 2]) c ∧
    c.shared.state = .stopped ∧ c.log.getLast? = some (1, .returned .stop) ∧
    (c.threads[2]?).map Thread.worker = some .loop :=
  threadManager.exists_reach _ _ stopWhileJoining (by decide)

end Threads.Manager
