import Threads.Manager.Accounting
import Threads.Manager.Stopping

/-!
# Join drains the queue

A worker leaves its loop in state `JOINING` only when the queue is empty, and the
`Join` that shuts the manager down waits for all of them to leave.
-/

namespace Threads.Manager

open Concurrency

/-- The blocks of `Join` and of `Add`. -/
def CallAct.joining : CallAct → Bool
  | .stop join => join
  | .lockStop | .readCount | .lower | .awaitRemoved | .finishStop => true
  | .add _ _ _ | .addGuardFails _ | .resumeAdd _ | .addTimesOut => true
  | _ => false

/-- Workers run; clients call `Join` and `Add`. -/
def Joins : Move Act → Prop
  | .run _ (.call a) _ => a.joining = true
  | _ => True

instance : DecidablePred Joins
  | .spurious _ | .run _ (.worker _) _ => isTrue trivial
  | .run _ (.call a) _ => inferInstanceAs (Decidable (a.joining = true))

def JoinsCleanly (c : Config Impl Thread Event) (mv : Move Act) : Prop :=
  StopsCleanly c mv ∧ Joins mv

instance (c : Config Impl Thread Event) (mv : Move Act) : Decidable (JoinsCleanly c mv) :=
  inferInstanceAs (Decidable (_ ∧ _))

/-- The tasks pushed before shutdown began. -/
def tasksBefore (log : List Entry) : List Nat :=
  (log.takeWhile fun e => !e.2.closes).filterMap pushedTask

/-- None of these tasks is queued any more. -/
def Drained (c : Config Impl Thread Event) : Prop :=
  ∀ t ∈ c.shared.tasks, t.id ∉ tasksBefore c.log

/-- A worker has run the task, or it has been discarded as expired. -/
def Settled (log : List Entry) (task : Nat) : Prop :=
  (∃ i raised, (i, Event.finished task raised) ∈ log) ∨
    ∃ i callback, (i, Event.expired task callback) ∈ log

/-- One for a call that changes the size of the pool and is no `Join`. -/
def strays : Call → Nat
  | .none | .start .none | .startParked .none | .startWoken .none | .addParked _ | .addWoken _ => 0
  | .stopImpl true | .readCount true | .finishStop true _ => 0
  | .removeWorker _ (.stopImpl true) => 0
  | .awaitRemoved (.stopImpl true) | .removedParked (.stopImpl true) => 0
  | _ => 1

instance : SteadyCall strays where
  wake c := by
    cases c with
    | startParked workers => cases workers <;> rfl
    | removedParked caller =>
      cases caller with
      | client => rfl
      | stopImpl join => cases join <;> rfl
    | _ => rfl

def isWithdrawal : Event → Bool
  | .withdrawn _ _ => true
  | _ => false

structure JoinAccount (c : Config Impl Thread Event) : Prop where
  queue : QueueAccount c
  shutdown : ShutdownAccount c
  stop : StopAccount c
  joins : total (onCall strays) c.threads = 0
  phase : c.shared.state = .started ∨ c.shared.state = .joining ∨ c.shared.state = .stopped
  live : c.shared.state = .started → 0 < total (onWorker inLoop) c.threads
  draining : c.shared.state = .joining → 0 < total (onWorker inLoop) c.threads ∨ Drained c
  drained : c.shared.state = .stopped → Drained c
  kept : ∀ e ∈ c.log, isWithdrawal e.2 = false

/-! ## Tasks pushed before the shutdown -/

theorem tasksBefore_append {log : List Entry} (begun : Begun log) (es : List Entry) :
    tasksBefore (log ++ es) = tasksBefore log := by
  obtain ⟨e, he, closes⟩ := begun
  have stops : (log.takeWhile fun e => !e.2.closes).length ≠ log.length := by
    intro all
    have same := (List.takeWhile_prefix _).eq_of_length all
    have open' := List.takeWhile_eq_self_iff.mp same e he
    simp [closes] at open'
  unfold tasksBefore
  rw [List.takeWhile_append, if_neg stops]

theorem tasksBefore_subset (log : List Entry) {t : Nat} (h : t ∈ tasksBefore log) :
    t ∈ log.filterMap pushedTask :=
  ((List.takeWhile_sublist _).filterMap pushedTask).subset h

/-- A drained queue stays drained: what joins it was pushed later. -/
theorem Drained.next {c c' : Config Impl Thread Event} {es : List Entry} (h : QueueAccount c)
    (h' : QueueAccount c') (begun : Begun c.log) (log : c'.log = c.log ++ es)
    (drained : Drained c) : Drained c' := by
  intro t ht
  rw [log, tasksBefore_append begun]
  have advance := (h.advances h' log).queue
  have queued : t.id ∈ c.shared.tasks.map Task.id ++ es.filterMap pushedTask := by
    rw [show c.shared.tasks.map Task.id = h.ledger.queue from rfl, ← advance]
    exact List.mem_append_right _ (List.mem_map_of_mem ht)
  rcases List.mem_append.mp queued with before | joined
  · obtain ⟨u, hu, same⟩ := List.mem_map.mp before
    exact same ▸ drained u hu
  · intro old
    have once := h'.once
    rw [(h.advances h' log).pushed] at once
    exact List.disjoint_of_nodup_append once (tasksBefore_subset c.log old) joined

/-! ## One step -/

theorem inLoop_le_activated (ts : List Thread) :
    total (onWorker inLoop) ts ≤ total (onWorker activated) ts := by
  apply total_mono
  intro t _
  obtain ⟨_, worker, _, _⟩ := t
  cases worker <;> simp [onWorker, inLoop, activated]

section Step

variable {c c' : Config Impl Thread Event} {i : Nat} {cs : List Nat} {t : Thread}
variable {ts : List Thread}

theorem JoinAccount.not_stray (h : JoinAccount c) (here : c.threads[i]? = some t) :
    strays t.call = 0 :=
  total_eq_zero.mp h.joins t (List.mem_of_getElem? here)

/-- Before shutdown begins the limit is not below the count, so no worker leaves. -/
theorem JoinAccount.within (h : JoinAccount c) (started : c.shared.state = .started) :
    c.shared.workerCount ≤ c.shared.workerMaxCount := by
  rcases h.stop.within with within | lowering
  · exact within
  · obtain ⟨i, t, here, lower⟩ := exists_of_total_pos lowering
    have stray := h.not_stray here
    have stage := h.stop.stages t (List.mem_of_getElem? here)
    unfold onCall at lower
    generalize t.call = d at lower stray stage
    cases d with
    | awaitRemoved caller | removedParked caller =>
      cases caller with
      | client => cases stray
      | stopImpl join =>
        have closing := stage.1
        rw [started] at closing
        cases closing
    | _ => cases lower

theorem JoinAccount.begun (h : JoinAccount c) (later : c.shared.state ≠ .started) :
    Begun c.log := by
  apply h.shutdown.begun.mp
  rcases h.phase with state | state | state
  · exact absurd state later
  · rw [state]; rfl
  · rw [state]; rfl

/-- A `Join` goes on to its own stages. -/
theorem CallStep.strays {s : Impl} {id : Nat} {d : Call} {a : CallAct} {o : Effect Call}
    (h : CallStep s id d a o) (joins : a.joining = true) (before : Manager.strays d = 0) :
    Manager.strays o.self = 0 := by
  cases h with
  | stopTested =>
    simp only [CallAct.joining] at joins
    subst joins
    rfl
  | @shutsDown join | @skipsRemoval join | @readCount join =>
    cases join with
    | false => cases before
    | true => rfl
  | @lowers value caller | @removedParks caller | @removed caller =>
    cases caller with
    | client => cases before
    | stopImpl join => cases join <;> first | rfl | cases before
  | stopRefused | finishStop | lowerFails | addRefused | addRaised | addParks | addTooMany | adds |
      guardFails | resumesFull | resumesAndAdds | timesOut => rfl
  | _ => cases joins

/-- Only `RemoveNextPending` withdraws a task, and not from a started manager. -/
theorem CallStep.withdrawn {s : Impl} {id : Nat} {d : Call} {a : CallAct} {o : Effect Call}
    (h : CallStep s id d a o) {e : Event} (he : e ∈ o.events) (withdraws : isWithdrawal e = true) :
    a = .removeNextPending ∧ s.state ≠ .started ∧ s.tasks ≠ [] := by
  have report := h.reports he
  cases e with
  | withdrawn => exact report
  | _ => cases withdraws

theorem not_withdrawal_byWorker {e : Event} (h : e.byWorker = true) : isWithdrawal e = false := by
  cases e <;> first | rfl | cases h

/-- No task is withdrawn before shutdown begins. -/
theorem no_withdrawal_step {mv : Move Act} (account : ShutdownAccount c)
    (kept : c.shared.state.closing = false → ∀ e ∈ c.log, isWithdrawal e.2 = false)
    (change : Change c mv c') (opening : c'.shared.state.closing = false) :
    ∀ e ∈ c'.log, isWithdrawal e.2 = false := by
  intro e he
  cases change with
  | spurious => exact kept opening e he
  | worker _ _ _ _ step =>
    rcases List.mem_append.mp he with he | he
    · exact kept (step.state ▸ opening) e he
    · obtain ⟨e, mem, rfl⟩ := List.mem_map.mp he
      exact not_withdrawal_byWorker (step.events e mem)
  | call _ _ _ _ step =>
    have before : c.shared.state.closing = false := by
      by_contra closing
      have after := step.closing (by simpa using closing)
      simp [after] at opening
    rcases List.mem_append.mp he with he | he
    · exact kept before e he
    · obtain ⟨e, mem, rfl⟩ := List.mem_map.mp he
      by_contra withdraws
      obtain ⟨-, closed, some⟩ := step.withdrawn mem (by simpa using withdraws)
      exact some (account.unopened before closed)

/-- The part of the history that is known before shutdown begins. -/
def Unwithdrawn (c : Config Impl Thread Event) : Prop :=
  ShutdownAccount c ∧ (c.shared.state.closing = false → ∀ e ∈ c.log, isWithdrawal e.2 = false)

theorem unwithdrawn_of_reach {clients : List Nat} (h : threadManager.Reach (fresh clients) c) :
    Unwithdrawn c := by
  have init : Unwithdrawn (fresh clients) :=
    ⟨shutdownAccount_fresh clients, fun _ => by simp [fresh]⟩
  refine h.invariant init fun h _ step => ?_
  have change := change_of_step step
  exact ⟨shutdownAccount_step h.1 change, no_withdrawal_step h.1 h.2 change⟩

/-- A `Join` takes a started manager to `JOINING`, and the last block to `STOPPED`. -/
theorem CallStep.joinState {s : Impl} {id : Nat} {d : Call} {a : CallAct} {o : Effect Call}
    (h : CallStep s id d a o) (before : Manager.strays d = 0)
    (phase : s.state = .started ∨ s.state = .joining ∨ s.state = .stopped) :
    o.shared.state = s.state ∨ o.shared.state = .joining ∧ s.state = .started ∨
      o.shared.state = .stopped := by
  cases h with
  | started fresh => simp [fresh] at phase
  | @shutsDown join first =>
    cases join with
    | false => cases before
    | true => exact .inr (.inl ⟨rfl, by simpa [first] using phase⟩)
  | finishStop => exact .inr (.inr rfl)
  | startAgain | resumeStart => exact .inl (by rw [startWaitBlock_shared])
  | startThread => exact .inl (by rw [startThreadBlock_shared])
  | remove => exact .inl (by rw [removeBlock_shared])
  | removeNextPending =>
    obtain ⟨_, -, eq⟩ := removeNextPendingBlock_shared s
    exact .inl (by rw [eq])
  | _ => exact .inl rfl

theorem joinAccount_worker (h : JoinAccount c) {a : WorkerAct} {o : Effect Worker}
    (here : c.threads[i]? = some t) (idle : t.call = .none)
    (step : WorkerStep c.shared t.ref t.worker a o)
    (delivered : threadManager.deliver o.signals cs c.threads = some ts)
    (target : c' = ⟨o.shared, ts.set i (t.withWorker idle o.self),
      c.log ++ o.events.map (Prod.mk i)⟩)
    (queue : QueueAccount c') (shutdown : ShutdownAccount c') (stop : StopAccount c') :
    JoinAccount c' := by
  have woken := threadManager.deliver_woken delivered
  have looping := total_worker inLoop woken here idle o.self
  have own := le_total_of_getElem? (onWorker inLoop) here
  unfold onWorker at own
  have state : c'.shared.state = c.shared.state := by rw [target]; exact step.state
  have log : c'.log = c.log ++ o.events.map (Prod.mk i) := by rw [target]
  have drained (later : c.shared.state ≠ .started) (before : Drained c) : Drained c' :=
    Drained.next h.queue queue (h.begun later) log before
  refine ⟨queue, shutdown, stop, ?_, state ▸ h.phase, ?_, ?_, ?_, ?_⟩
  · rw [target]
    dsimp only
    rw [total_worker_call strays woken here idle]
    exact h.joins
  · intro started
    rw [state] at started
    have some := h.live started
    have limit := h.within started
    rcases step.inLoop with stays | inactive
    · rw [target]
      dsimp only
      unfold onWorker at looping some ⊢
      omega
    · rw [Impl.not_isActive_iff] at inactive
      omega
  · intro joining
    rw [state] at joining
    have later : c.shared.state ≠ .started := by simp [joining]
    rcases step.inLoop with stays | inactive
    · rcases h.draining joining with some | before
      · left
        rw [target]
        dsimp only
        unfold onWorker at looping some ⊢
        omega
      · exact .inr (drained later before)
    · rw [Impl.not_isActive_iff] at inactive
      have empty : Drained c := by
        intro t ht
        rw [inactive.2 joining] at ht
        cases ht
      exact .inr (drained later empty)
  · intro stopped
    rw [state] at stopped
    exact drained (by simp [stopped]) (h.drained stopped)
  · rw [log]
    intro e he
    rcases List.mem_append.mp he with he | he
    · exact h.kept e he
    · obtain ⟨e, mem, rfl⟩ := List.mem_map.mp he
      exact not_withdrawal_byWorker (step.events e mem)

theorem joinAccount_call (h : JoinAccount c) {a : CallAct} {o : Effect Call}
    (here : c.threads[i]? = some t) (makesCalls : t.worker.makesCalls = true)
    (step : CallStep c.shared t.ref.id t.call a o)
    (delivered : threadManager.deliver o.signals cs c.threads = some ts)
    (ok : JoinsCleanly c (.run i (.call a) cs))
    (target : c' = ⟨o.shared, ts.set i (t.withCall makesCalls o.self) ++ o.spawned,
      c.log ++ o.events.map (Prod.mk i)⟩)
    (queue : QueueAccount c') (shutdown : ShutdownAccount c') (stop : StopAccount c') :
    JoinAccount c' := by
  have woken := threadManager.deliver_woken delivered
  have log : c'.log = c.log ++ o.events.map (Prod.mk i) := by rw [target]
  have looping : total (onWorker inLoop) c'.threads = total (onWorker inLoop) c.threads := by
    rw [target]
    exact step.keeps_workers inLoop rfl woken here makesCalls
  have drained (later : c.shared.state ≠ .started) (before : Drained c) : Drained c' :=
    Drained.next h.queue queue (h.begun later) log before
  have stray := h.not_stray here
  have stage := h.stop.stages t (List.mem_of_getElem? here)
  have state := step.joinState stray h.phase
  have shared : c'.shared = o.shared := by rw [target]
  rw [← shared] at state
  refine ⟨queue, shutdown, stop, ?_, ?_, ?_, ?_, ?_, ?_⟩
  · have moved := step.moves_calls strays rfl woken here makesCalls
    rw [stray, step.strays ok.2 stray, h.joins] at moved
    rw [target]
    exact moved
  · rcases state with same | ⟨joining, -⟩ | stopped
    · rw [same]
      exact h.phase
    · exact .inr (.inl joining)
    · exact .inr (.inr stopped)
  · intro started
    rw [looping]
    rcases state with same | ⟨joining, -⟩ | stopped
    · exact h.live (same ▸ started)
    · simp [joining] at started
    · simp [stopped] at started
  · intro joining
    rw [looping]
    rcases state with same | ⟨-, started⟩ | stopped
    · rw [same] at joining
      exact (h.draining joining).imp_right (drained (by simp [joining]))
    · exact .inl (h.live started)
    · simp [joining] at stopped
  · intro stopped
    rcases step.stops (shared ▸ stopped) with before | ⟨rfl, join, doStop, place⟩
    · exact drained (by simp [before]) (h.drained before)
    · rw [place] at stage
      cases doStop with
      | false =>
        rcases ok.1.2.2 rfl with before | other
        · exact drained (by simp [before]) (h.drained before)
        · exact absurd (by rw [here, Option.map_some, place]) (other join)
      | true =>
        obtain ⟨closing, emptied⟩ := stage
        have nobody : total (onWorker inLoop) c.threads = 0 := by
          have counts := h.stop.counts
          have within := inLoop_le_activated c.threads
          unfold CountsActivated at counts
          have zero := emptied.noWorker
          omega
        rcases h.phase with before | before | before
        · rw [before] at closing
          cases closing
        · rcases h.draining before with some | empty
          · omega
          · exact drained (by simp [before]) empty
        · exact drained (by simp [before]) (h.drained before)
  · rw [log]
    intro e he
    rcases List.mem_append.mp he with he | he
    · exact h.kept e he
    · obtain ⟨e, mem, rfl⟩ := List.mem_map.mp he
      by_contra withdraws
      have act := (step.withdrawn mem (by simpa using withdraws)).1
      rw [act] at ok
      cases ok.2

theorem joinAccount_step {mv : Move Act} (h : JoinAccount c) (ok : JoinsCleanly c mv)
    (change : Change c mv c') : JoinAccount c' := by
  have queue := queueAccount_step h.queue change
  have shutdown := shutdownAccount_step h.shutdown change
  have stop := stopAccount_step h.stop ok.1 change
  cases change with
  | @spurious i t here waits =>
    have worker (f : Worker → Nat) [Steady f] := total_worker_spurious f here waits
    have call := total_call_spurious strays here waits
    exact ⟨queue, shutdown, stop, call.trans h.joins, h.phase, fun started => (worker inLoop) ▸
      h.live started, fun joining => (worker inLoop) ▸ h.draining joining, h.drained, h.kept⟩
  | worker _ here idle place step delivered =>
    subst place
    exact joinAccount_worker h here idle step delivered rfl queue shutdown stop
  | call _ here makesCalls place step delivered =>
    subst place
    exact joinAccount_call h here makesCalls step delivered ok rfl queue shutdown stop

end Step

/-! ## Runs -/

theorem strays_le_resizes (ts : List Thread) :
    total (onCall strays) ts ≤ total (onCall resizes) ts := by
  apply total_mono
  intro t _
  obtain ⟨_, _, call, _⟩ := t
  unfold onCall
  cases call with
  | start workers | startParked workers | startWoken workers =>
    cases workers <;> exact Nat.le_refl _
  | stopImpl join | readCount join | finishStop join =>
    cases join <;> first | exact Nat.le_refl _ | exact Nat.zero_le _
  | removeWorker value caller | awaitRemoved caller | removedParked caller =>
    cases caller with
    | client => exact Nat.le_refl _
    | stopImpl join => cases join <;> first | exact Nat.le_refl _ | exact Nat.zero_le _
  | _ => exact Nat.le_refl _

/-- A started manager in which no call resizes the pool and a worker is in its loop. -/
structure Live (c : Config Impl Thread Event) : Prop where
  started : c.shared.state = .started
  alone : total (onCall resizes) c.threads = 0
  looping : ∃ t ∈ c.threads, inLoop t.worker = 1

instance : DecidablePred Live := fun c =>
  decidable_of_iff (c.shared.state = .started ∧ total (onCall resizes) c.threads = 0 ∧
    ∃ t ∈ c.threads, inLoop t.worker = 1) ⟨fun h => ⟨h.1, h.2.1, h.2.2⟩, fun h => ⟨h.1, h.2, h.3⟩⟩

theorem joinAccount_of_run {clients : List Nat} {c₀ : Config Impl Thread Event}
    (run : threadManager.Run StopsCleanly (fresh clients) c₀) (live : Live c₀) :
    JoinAccount c₀ where
  queue := queueAccount_of_reach run.reach
  shutdown := shutdownAccount_of_reach run.reach
  stop := stopAccount_of_run run
  joins := by
    have fewer := strays_le_resizes c₀.threads
    have alone := live.alone
    omega
  phase := .inl live.started
  live _ := by
    obtain ⟨t, ht, looping⟩ := live.looping
    have some := le_total (onWorker inLoop) ht
    unfold onWorker at some ⊢
    omega
  draining joining := by simp [live.started] at joining
  drained stopped := by simp [live.started] at stopped
  kept := (unwithdrawn_of_reach run.reach).2 (by rw [live.started]; rfl)

/-- In a stopped manager every task pushed before the shutdown is settled. -/
theorem JoinAccount.settled {c : Config Impl Thread Event} (h : JoinAccount c)
    (stopped : c.shared.state = .stopped) {task : Nat} (before : task ∈ tasksBefore c.log) :
    Settled c.log task := by
  have quiet := h.stop.quiescent (h.stop.stopped stopped)
  have empty {β : Type} (f : Hands → List β) (none : f {} = []) (i : Nat) :
      Program.look (fun t : Thread => f t.worker.hands) [] c.threads i = [] := by
    cases here : c.threads[i]? with
    | none => simp [Program.look, here]
    | some t =>
      rw [Program.look_of_getElem? _ _ here]
      rcases (quiet t (List.mem_of_getElem? here)).1 with place | place <;>
        simpa [place, Worker.hands] using none
  rcases h.queue.ledger.queued_or_taken (tasksBefore_subset c.log before) with
    queued | ⟨fate, taken⟩
  · obtain ⟨t, ht, rfl⟩ := List.mem_map.mp queued
    exact absurd before (h.drained stopped t ht)
  · cases fate with
    | handed i =>
      have handed := QueueAccount.mem_handedTo.mpr taken
      rw [h.queue.held i,
        show Program.look Thread.held [] c.threads i = [] from empty Hands.held rfl i,
        List.append_nil, h.queue.running i,
        show Program.look Thread.running [] c.threads i = [] from empty Hands.running rfl i,
        List.append_nil, List.mem_filterMap] at handed
      obtain ⟨⟨j, e⟩, mem, eq⟩ := handed
      cases e with
      | finished t raised =>
        simp only [finishedBy, Option.ite_none_right_eq_some, Option.some.injEq] at eq
        exact .inl ⟨j, raised, eq.2 ▸ mem⟩
      | _ => cases eq
    | expired =>
      obtain ⟨⟨j, e⟩, mem, eq⟩ := List.mem_filterMap.mp taken
      cases e with
      | expired t callback =>
        simp only [takenTask, Option.some.injEq, Prod.mk.injEq, and_true] at eq
        exact .inr ⟨j, callback, eq ▸ mem⟩
      | dequeued => simp [takenTask] at eq
      | withdrawn => simp [takenTask] at eq
      | _ => cases eq
    | withdrawn =>
      obtain ⟨⟨j, e⟩, mem, eq⟩ := List.mem_filterMap.mp taken
      have kept := h.kept _ mem
      cases e with
      | withdrawn => cases kept
      | dequeued => simp [takenTask] at eq
      | expired => simp [takenTask] at eq
      | _ => cases eq

/-- A worker reports that it leaves its loop when it has found itself inactive. -/
theorem WorkerStep.left {s : Impl} {ref : ThreadRef} {w : Worker} {a : WorkerAct}
    {o : Effect Worker} (h : WorkerStep s ref w a o) (left : Event.left ∈ o.events) :
    s.isActive = false := by
  have working {s : Impl} {env : Surroundings} (left : Event.left ∈ (workBlock s env).events) :
      False := by
    have expiry (he : Event.left ∈ s.expiryEvents env) : False := by
      rcases Impl.mem_expiryEvents he with ⟨t, eq⟩ | ⟨t, callback, eq⟩ <;> cases eq
    unfold workBlock at left
    dsimp only at left
    split at left
    · exact expiry left
    · split at left
      · exact expiry left
      · rcases List.mem_append.mp left with left | left
        · exact expiry left
        · cases List.mem_singleton.mp left
  cases h with
  | leaves inactive | wakesAndLeaves inactive => exact inactive
  | works | wakesAndWorks => exact (working left).elim
  | ran | done => cases List.mem_singleton.mp left
  | _ => cases left

/-- No worker leaves its loop while a task pushed before the shutdown is queued. -/
theorem JoinAccount.left {c c' : Config Impl Thread Event} {mv : Move Act} (h : JoinAccount c)
    (change : Change c mv c') (left : ∃ e ∈ c'.log.drop c.log.length, e.2 = .left) : Drained c := by
  obtain ⟨e, he, left⟩ := left
  cases change with
  | spurious => simp at he
  | @worker i a cs t w o ts alive here idle place step delivered =>
    rw [List.drop_left] at he
    obtain ⟨e, mem, rfl⟩ := List.mem_map.mp he
    subst left
    have inactive := step.left mem
    rw [Impl.not_isActive_iff] at inactive
    rcases h.phase with started | joining | stopped
    · have limit := h.within started
      omega
    · intro t ht
      rw [inactive.2 joining] at ht
      cases ht
    · exact h.drained stopped
  | call _ _ _ _ step =>
    rw [List.drop_left] at he
    obtain ⟨e, mem, rfl⟩ := List.mem_map.mp he
    subst left
    exact (step.reports mem).elim

/-- From a live manager, under any number of concurrent `Join` calls whose steps meet
the conditions: when one of them returns, every task pushed before the shutdown is
settled; and no worker leaves its loop while one of these tasks is queued. -/
theorem join_drains (clients : List Nat) (c₀ c : Config Impl Thread Event)
    (run : threadManager.Run StopsCleanly (fresh clients) c₀) (live : Live c₀)
    (joins : threadManager.Run JoinsCleanly c₀ c) :
    ∀ mv c', JoinsCleanly c mv → threadManager.Step c mv c' →
      ((∃ e ∈ c'.log.drop c.log.length, e.2 = .returned .join) →
        ∀ task ∈ tasksBefore c'.log, Settled c'.log task) ∧
      ((∃ e ∈ c'.log.drop c.log.length, e.2 = .left) →
        ∀ t ∈ c.shared.tasks, t.id ∉ tasksBefore c.log) := by
  intro mv c' ok step
  have h : JoinAccount c := joins.invariant (joinAccount_of_run run live)
    fun h ok step => joinAccount_step h ok (change_of_step step)
  have change := change_of_step step
  refine ⟨?_, h.left change⟩
  rintro ⟨e, he, returned⟩ task before
  have stopped := change.returnsStop he (by rw [returned]; rfl)
  exact (joinAccount_step h ok change).settled stopped before

/-- A started manager with one worker and two queued tasks. -/
def startAndAdd : List (Move Act) :=
  startAndJoin.take 12 ++
    [.run 0 (.call (.add ⟨10, 0, 0⟩ ⟨fun _ => 0, none⟩ 0)) [],
      .run 0 (.call (.add ⟨11, 0, 5⟩ ⟨fun _ => 0, none⟩ 100)) []]

/-- `Join` on it: the worker runs one task and discards the other before it leaves. -/
def joinAndDrain : List (Move Act) :=
  [.run 0 (.call (.stop true)) [], .run 0 (.call .lockStop) [], .run 0 (.call .readCount) [],
    .run 0 (.call .lower) [], .run 2 (.worker (.iterate ⟨fun _ => 0, none⟩)) [],
    .run 2 (.worker .run) [], .run 2 (.worker (.finish true)) [],
    .run 2 (.worker (.iterate ⟨fun _ => 200, none⟩)) [],
    .run 2 (.worker (.iterate ⟨fun _ => 0, none⟩)) [], .run 2 (.worker .exit) [],
    .run 0 (.call .awaitRemoved) []]

theorem join_drains_joinAndDrain : ∃ c c',
    threadManager.Step c (.run 0 (.call .finishStop) []) c' ∧
      c'.log.getLast? = some (0, .returned .join) ∧ Settled c'.log 0 ∧ Settled c'.log 1 := by
  obtain ⟨c₀, run, live, next⟩ := threadManager.exists_run StopsCleanly (fresh [1, 2])
    (fun c₀ => Live c₀ ∧ (threadManager.execWhile JoinsCleanly c₀ joinAndDrain).any (fun c =>
      decide (JoinsCleanly c (.run 0 (.call .finishStop) [])) &&
        (threadManager.step c (.run 0 (.call .finishStop) [])).any (fun c' =>
          decide (c'.log.getLast? = some (0, .returned .join) ∧ tasksBefore c'.log = [0, 1] ∧
            ∃ e ∈ c'.log.drop c.log.length, e.2 = .returned .join))) = true) startAndAdd (by decide)
  obtain ⟨c, joins, next⟩ := (Option.any_eq_true _ _).mp next
  rw [Bool.and_eq_true] at next
  obtain ⟨c', step, returned⟩ := (Option.any_eq_true _ _).mp next.2
  obtain ⟨last, before, returns⟩ := of_decide_eq_true returned
  have step := threadManager.step_iff.mp step
  have settled := (join_drains [1, 2] c₀ c run live (Program.run_of_execWhile joins) _ c'
    (of_decide_eq_true next.1) step).1 returns
  exact ⟨c, c', step, last, settled 0 (by simp [before]), settled 1 (by simp [before])⟩

/-- A second client's `Join` finds state `JOINING`, writes `STOPPED` and returns while
both tasks are queued. -/
def joinTwice : List (Move Act) :=
  [.run 0 (.call (.stop true)) [], .run 0 (.call .lockStop) [], .run 1 (.call (.stop true)) [],
    .run 1 (.call .lockStop) [], .run 1 (.call .finishStop) []]

theorem join_returns_undrained : ∃ c₀ c, threadManager.Reach (fresh [1, 2]) c₀ ∧ Live c₀ ∧
    threadManager.Run (fun _ mv => Joins mv) c₀ c ∧ c.log.getLast? = some (1, .returned .join) ∧
    tasksBefore c.log = [0, 1] ∧ c.shared.tasks.map Task.id = [0, 1] := by
  obtain ⟨c₀, reach, live, next⟩ := threadManager.exists_reach (fresh [1, 2])
    (fun c₀ => Live c₀ ∧ (threadManager.execWhile (fun _ mv => Joins mv) c₀ joinTwice).any (fun c =>
      decide (c.log.getLast? = some (1, .returned .join) ∧ tasksBefore c.log = [0, 1] ∧
        c.shared.tasks.map Task.id = [0, 1])) = true) startAndAdd (by decide)
  obtain ⟨c, joins, last⟩ := (Option.any_eq_true _ _).mp next
  exact ⟨c₀, c, reach, live, Program.run_of_execWhile joins, of_decide_eq_true last⟩

end Threads.Manager
