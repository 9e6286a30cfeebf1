import Mathlib.Data.List.Infix
import Mathlib.Data.List.TakeWhile
import Threads.Manager.Pool

/-!
# Work accepted after shutdown

`Add` tests `state_` once, when its guard first holds `mutex_`. A producer that
then waits for room in the queue comes back to the test of the bound alone.
-/

namespace Threads.Manager

open Concurrency

/-- Shutdown has begun. -/
def State.closing : State → Bool
  | .joining | .stopping | .stopped => true
  | _ => false

def Event.closes : Event → Bool
  | .became state => state.closing
  | _ => false

/-- The push of a task, and the normal return of the `Add` that pushed it. -/
def Event.accepts : Event → Bool
  | .pushed _ => true
  | .returned .add => true
  | _ => false

/-- The log from the beginning of the shutdown on. -/
def afterClosing (log : List (Nat × Event)) : List (Nat × Event) :=
  log.dropWhile fun e => !e.2.closes

/-- No `Add` has pushed a task or returned normally since shutdown began. -/
def AcceptsOnlyOpen (c : Config Impl Thread Event) : Prop :=
  ∀ e ∈ afterClosing c.log, e.2.accepts = false

instance : DecidablePred AcceptsOnlyOpen := fun _ => inferInstanceAs (Decidable (∀ e ∈ _, _))

def CallAct.resumesAdd : CallAct → Bool
  | .resumeAdd _ => true
  | _ => false

/-- The step is no return of an `Add` from its wait that finds room in the queue of
a manager that is not `STARTED`. -/
def ResumesOpen (c : Config Impl Thread Event) : Move Act → Prop
  | .run _ (.call a) _ =>
    a.resumesAdd = true → c.shared.state = .started ∨ c.shared.full = true
  | _ => True

instance (c : Config Impl Thread Event) : DecidablePred (ResumesOpen c)
  | .spurious _ | .run _ (.worker _) _ => isTrue trivial
  | .run _ (.call a) _ => inferInstanceAs (Decidable (a.resumesAdd = true → _))

/-- One for an `Add` inside its wait loop. -/
def awaitsRoom : Call → Nat
  | .addParked _ | .addWoken _ => 1
  | _ => 0

instance : SteadyCall awaitsRoom := ⟨fun c => by cases c <;> rfl⟩

/-! ## One step -/

theorem not_accepts_byWorker {e : Event} (h : e.byWorker = true) :
    e.closes = false ∧ e.accepts = false := by
  cases e <;> simp_all [Event.byWorker, Event.closes, Event.accepts]

theorem not_accepts_expiry {s : Impl} {env : Surroundings} {e : Event}
    (h : e ∈ s.expiryEvents env) : e.closes = false ∧ e.accepts = false :=
  not_accepts_byWorker (byWorker_expiry h)

/-- An `Add` that comes back from its wait and finds room. -/
def Resumes (s : Impl) (a : CallAct) : Prop := (∃ now, a = .resumeAdd now) ∧ s.full = false

/-- What a block of a call does to `state_` and to the history of the shutdown. -/
inductive CallShutdown (s : Impl) (a : CallAct) (o : Effect Call) : Prop
  | neither (same : o.shared.state = s.state) (tasks : o.shared.tasks <:+ s.tasks)
      (events : ∀ e ∈ o.events, e.closes = false ∧ e.accepts = false)
  | opens (before : s.state = .uninitialized) (after : o.shared.state = .started)
      (events : ∀ e ∈ o.events, e.closes = false ∧ e.accepts = false)
  | closes (after : o.shared.state.closing = true) (event : ∃ e ∈ o.events, e.closes = true)
      (refuses : ∀ e ∈ o.events, e.accepts = false)
  | accepts (same : o.shared.state = s.state) (events : ∀ e ∈ o.events, e.closes = false)
      (event : ∃ e ∈ o.events, e.accepts = true) (opened : s.state = .started ∨ Resumes s a)

theorem not_accepts_started (workers : Option Nat) :
    ∀ e ∈ startedEvents workers, e.closes = false ∧ e.accepts = false := by
  cases workers <;> simp [startedEvents, Event.closes, Event.accepts]

theorem closing_shutdownState (join : Bool) : (shutdownState join).closing = true := by
  cases join <;> rfl

theorem CallStep.shutdown {s : Impl} {id : Nat} {d : Call} {a : CallAct} {o : Effect Call}
    (h : CallStep s id d a o) : CallShutdown s a o := by
  have expiry (env : Surroundings) : (s.removeExpiredTasks env).tasks <:+ s.tasks :=
    ⟨_, removeExpiredTasks_tasks s env⟩
  cases h with
  | @started workers fresh =>
    refine .opens fresh rfl fun e he => ?_
    rcases List.mem_cons.mp he with rfl | he
    · exact ⟨rfl, rfl⟩
    · exact not_accepts_started workers e he
  | @startAgain workers | @resumeStart workers =>
    refine .neither (by rw [startWaitBlock_shared])
      (by rw [startWaitBlock_shared]) ?_
    unfold startWaitBlock
    split
    · simp
    · exact not_accepts_started workers
  | startThread =>
    refine .neither (by rw [startThreadBlock_shared])
      (by rw [startThreadBlock_shared]) ?_
    unfold startThreadBlock
    split <;> simp
  | @removed caller =>
    refine .neither rfl (List.suffix_refl _) ?_
    cases caller <;> simp [removedEvents, Event.closes, Event.accepts]
  | @stopRefused join =>
    refine .neither rfl (List.suffix_refl _) ?_
    cases join <;> simp [Operation.ofJoin, Event.closes, Event.accepts]
  | @shutsDown join =>
    have closing := closing_shutdownState join
    exact .closes closing ⟨_, List.mem_singleton_self _, closing⟩ (by simp [Event.accepts])
  | @finishStop join =>
    refine .closes rfl ⟨_, List.mem_cons_self, rfl⟩ ?_
    cases join <;> simp [Operation.ofJoin, Event.accepts]
  | addParks => exact .neither rfl (expiry _) fun _ he => not_accepts_expiry he
  | addRaised | addTooMany =>
    refine .neither rfl (expiry _) fun e he => ?_
    rcases List.mem_append.mp he with he | he
    · exact not_accepts_expiry he
    · rw [List.mem_singleton.mp he]
      exact ⟨rfl, rfl⟩
  | adds opened =>
    refine .accepts rfl (fun e he => ?_)
      ⟨_, List.mem_append_right _ List.mem_cons_self, rfl⟩ (.inl opened)
    rcases List.mem_append.mp he with he | he
    · exact (not_accepts_expiry he).1
    · rcases List.mem_pair.mp he with rfl | rfl <;> rfl
  | resumesAndAdds room =>
    refine .accepts rfl (fun e he => ?_) ⟨_, List.mem_cons_self, rfl⟩ (.inr ⟨⟨_, rfl⟩, room⟩)
    rcases List.mem_pair.mp he with rfl | rfl <;> rfl
  | remove =>
    refine .neither (by rw [removeBlock_shared])
      (by rw [removeBlock_shared]) ?_
    unfold removeBlock
    split <;> simp [Event.closes, Event.accepts]
  | removeNextPending =>
    obtain ⟨_, suffix, eq⟩ := removeNextPendingBlock_shared s
    refine .neither (by rw [eq]) (by rwa [eq]) ?_
    unfold removeNextPendingBlock
    split
    · simp [Event.closes, Event.accepts]
    · split <;> simp [Event.closes, Event.accepts]
  | removeExpiredTasks =>
    refine .neither rfl (expiry _) fun e he => ?_
    rcases List.mem_append.mp he with he | he
    · exact not_accepts_expiry he
    · split at he <;> rw [List.mem_singleton.mp he] <;> exact ⟨rfl, rfl⟩
  | newThreads | raise | register =>
    exact .neither rfl (List.suffix_refl _) fun _ h => absurd h List.not_mem_nil
  | guardFails | timesOut | expiredTaskCount =>
    refine .neither rfl (List.suffix_refl _) fun e he => ?_
    rw [List.mem_singleton.mp he]
    exact ⟨rfl, rfl⟩
  | _ => exact .neither rfl (List.suffix_refl _) (by simp [Event.closes, Event.accepts])

/-- A producer begins to wait only in a started manager. -/
theorem CallStep.awaitsRoom {s : Impl} {id : Nat} {d : Call} {a : CallAct} {o : Effect Call}
    (h : CallStep s id d a o) (waits : 0 < awaitsRoom o.self) :
    s.state = .started ∨ 0 < Manager.awaitsRoom d := by
  cases h with
  | addParks opened => exact .inl opened
  | resumesFull => exact .inr Nat.one_pos
  | @started workers => cases workers <;> cases waits
  | @startAgain workers | @resumeStart workers =>
    unfold startWaitBlock at waits
    split at waits <;> cases workers <;> cases waits
  | @raise objects | @register thread objects => cases objects <;> cases waits
  | @startThread object objects created => cases created <;> cases waits
  | @removed caller => cases caller <;> cases waits
  | remove =>
    obtain ⟨e, eq⟩ := removeBlock_eq s
    rw [eq] at waits
    cases waits
  | removeNextPending =>
    obtain ⟨tasks, es, -, eq⟩ := removeNextPendingBlock_eq s
    rw [eq] at waits
    cases waits
  | _ => cases waits

/-! ## Runs -/

def Begun (log : List (Nat × Event)) : Prop := ∃ e ∈ log, e.2.closes = true

theorem afterClosing_of_not_begun {log : List (Nat × Event)} (h : ¬ Begun log) :
    afterClosing log = [] := by
  apply List.dropWhile_eq_nil_iff.mpr
  intro e he
  by_contra closes
  exact h ⟨e, he, by simpa using closes⟩

theorem afterClosing_append_of_begun {log : List (Nat × Event)} (h : Begun log)
    (es : List (Nat × Event)) : afterClosing (log ++ es) = afterClosing log ++ es := by
  obtain ⟨e, he, closes⟩ := h
  have some : (log.dropWhile fun e => !e.2.closes).isEmpty = false := by
    by_contra none
    simp only [Bool.not_eq_false, List.isEmpty_iff] at none
    have open' := List.dropWhile_eq_nil_iff.mp none e he
    simp [closes] at open'
  simp [afterClosing, List.dropWhile_append, some]

theorem mem_afterClosing_append {log es : List (Nat × Event)} {e : Nat × Event}
    (h : e ∈ afterClosing (log ++ es)) : e ∈ afterClosing log ∨ e ∈ es := by
  unfold afterClosing at h
  rw [List.dropWhile_append] at h
  split at h
  · exact .inr ((List.dropWhile_sublist _).subset h)
  · exact List.mem_append.mp h

structure ShutdownAccount (c : Config Impl Thread Event) : Prop where
  begun : c.shared.state.closing = true ↔ Begun c.log
  admitted : 0 < total (onCall awaitsRoom) c.threads →
    c.shared.state = .started ∨ c.shared.state.closing = true
  unopened : c.shared.state.closing = false → c.shared.state ≠ .started → c.shared.tasks = []

variable {c c' : Config Impl Thread Event} {mv : Move Act}

theorem begun_append {log : List (Nat × Event)} {i : Nat} {es : List Event} :
    Begun (log ++ es.map (Prod.mk i)) ↔ Begun log ∨ ∃ e ∈ es, e.closes = true := by
  simp [Begun, or_and_right, exists_or]

theorem refuses_append {log : List (Nat × Event)} {i : Nat} {es : List Event}
    (h : ∀ e ∈ afterClosing log, e.2.accepts = false) (new : ∀ e ∈ es, e.accepts = false) :
    ∀ e ∈ afterClosing (log ++ es.map (Prod.mk i)), e.2.accepts = false := by
  intro e he
  rcases mem_afterClosing_append he with old | he
  · exact h e old
  · obtain ⟨e, mem, rfl⟩ := List.mem_map.mp he
    exact new e mem

theorem not_exists_closes {es : List Event} (h : ∀ e ∈ es, e.closes = false) :
    ¬ ∃ e ∈ es, e.closes = true := by
  rintro ⟨e, he, closes⟩
  simp [h e he] at closes

/-- An `Add` pushes in state `STARTED`, or after it has waited there. -/
theorem ShutdownAccount.opened (h : ShutdownAccount c) {i : Nat} {t : Thread} {a : CallAct}
    {o : Effect Call} (here : c.threads[i]? = some t) (step : CallStep c.shared t.ref.id t.call a o)
    (opened : c.shared.state = .started ∨ Resumes c.shared a) :
    c.shared.state = .started ∨ c.shared.state.closing = true := by
  rcases opened with opened | ⟨⟨now, rfl⟩, -⟩
  · exact .inl opened
  · have present := le_total_of_getElem? (onCall awaitsRoom) here
    have waits : onCall awaitsRoom t = 1 := by
      unfold onCall
      generalize t.call = d at step
      cases step <;> rfl
    exact h.admitted (by omega)

theorem shutdownAccount_step (h : ShutdownAccount c) (change : Change c mv c') :
    ShutdownAccount c' := by
  obtain ⟨begun, admitted, unopened⟩ := h
  cases change with
  | spurious here waits =>
    have same := total_call_spurious awaitsRoom here waits
    exact ⟨begun, fun some => admitted (same ▸ some), unopened⟩
  | @worker i a cs t w o ts alive here idle place step delivered =>
    have same := step.state
    have quiet := not_exists_closes fun e he => (not_accepts_byWorker (step.events e he)).1
    refine ⟨?_, ?_, ?_⟩
    · rw [begun_append, same, begun]
      simp [quiet]
    · dsimp only
      rwa [total_worker_call awaitsRoom (threadManager.deliver_woken delivered) here idle, same]
    · intro opening closed
      dsimp only at opening closed ⊢
      rw [same] at opening closed
      exact List.suffix_nil.mp (unopened opening closed ▸ step.tasks)
  | @call i a cs t d o ts alive here makesCalls place step delivered =>
    subst place
    have moved := step.moves_calls awaitsRoom rfl (threadManager.deliver_woken delivered) here
      makesCalls
    have present := le_total_of_getElem? (onCall awaitsRoom) here
    have own : onCall awaitsRoom t = awaitsRoom t.call := rfl
    -- whoever waits now was admitted by a started manager
    have waiting :
        0 < total (onCall awaitsRoom) (ts.set i (t.withCall makesCalls o.self) ++ o.spawned) →
        c.shared.state = .started ∨ c.shared.state.closing = true := by
      intro some
      by_cases self : 0 < awaitsRoom o.self
      · rcases step.awaitsRoom self with opened | before
        · exact .inl opened
        · exact admitted (by omega)
      · exact admitted (by omega)
    cases step.shutdown with
    | neither same tasks events =>
      have quiet := not_exists_closes fun e he => (events e he).1
      refine ⟨?_, ?_, ?_⟩
      · rw [begun_append, same, begun]
        simp [quiet]
      · dsimp only
        rwa [same]
      · intro opening closed
        dsimp only at opening closed ⊢
        rw [same] at opening closed
        exact List.suffix_nil.mp (unopened opening closed ▸ tasks)
    | opens before after events =>
      have quiet := not_exists_closes fun e he => (events e he).1
      refine ⟨?_, fun _ => .inl after, fun _ closed => absurd after closed⟩
      rw [begun_append, ← begun, before, after]
      simpa [State.closing] using quiet
    | closes after event rejects =>
      refine ⟨?_, fun _ => .inr after, ?_⟩
      · rw [begun_append]
        exact ⟨fun _ => .inr event, fun _ => after⟩
      · intro opening
        dsimp only at opening
        simp [after] at opening
    | accepts same events event opened =>
      have quiet := not_exists_closes events
      have open' := ShutdownAccount.opened ⟨begun, admitted, unopened⟩ here step opened
      refine ⟨?_, ?_, ?_⟩
      · rw [begun_append, same, begun]
        simp [quiet]
      · dsimp only
        rwa [same]
      · intro opening closed
        dsimp only at opening closed
        rw [same] at opening closed
        rcases open' with started | closing
        · exact absurd started closed
        · simp [closing] at opening

theorem acceptsOnlyOpen_step (h : ShutdownAccount c) (refuses : AcceptsOnlyOpen c)
    (ok : ResumesOpen c mv) (change : Change c mv c') : AcceptsOnlyOpen c' := by
  cases change with
  | spurious => exact refuses
  | worker _ _ _ _ step =>
    exact refuses_append refuses fun e he => (not_accepts_byWorker (step.events e he)).2
  | @call i a cs t d o ts alive here makesCalls place step delivered =>
    cases step.shutdown with
    | neither _ _ events | opens _ _ events =>
      exact refuses_append refuses fun e he => (events e he).2
    | closes _ _ rejects => exact refuses_append refuses rejects
    | accepts same events event opened =>
      have started : c.shared.state = .started := by
        rcases opened with opened | ⟨⟨now, rfl⟩, room⟩
        · exact opened
        · rcases ok rfl with opened | full
          · exact opened
          · simp [room] at full
      have none : ¬ Begun (c.log ++ o.events.map (Prod.mk i)) := by
        rw [begun_append, ← h.begun, started]
        simpa [State.closing] using not_exists_closes events
      intro e he
      rw [afterClosing_of_not_begun none] at he
      simp at he

/-- An `Add` that resumes with room in the queue pushes, whatever `state_` is. -/
theorem resumed_add_accepts (h : ShutdownAccount c) (bad : ¬ ResumesOpen c mv)
    (change : Change c mv c') : ¬ AcceptsOnlyOpen c' := by
  unfold ResumesOpen at bad
  split at bad
  · obtain ⟨resumes, bad⟩ := Classical.not_imp.mp bad
    obtain ⟨closed, room⟩ := not_or.mp bad
    cases change with
    | @call i a cs t d o ts alive here makesCalls place step delivered =>
      subst place
      have opened := h.opened here step
      generalize t.call = d at step
      cases step with
      | resumesFull full => exact absurd full room
      | @resumesAndAdds r now room =>
        have closing := (opened (.inr ⟨⟨_, rfl⟩, room⟩)).resolve_left closed
        intro refuses
        have late := refuses (_, .pushed c.shared.taskAllocs) (by
          rw [afterClosing_append_of_begun (h.begun.mp closing)]
          exact List.mem_append_right _ List.mem_cons_self)
        cases late
      | _ => cases resumes
  · exact absurd trivial bad

theorem shutdownAccount_fresh (clients : List Nat) : ShutdownAccount (fresh clients) where
  begun := by simp [fresh, Begun, State.closing]
  admitted some := by
    have zero := total_fresh clients (f := onCall awaitsRoom) fun _ => rfl
    omega
  unopened _ _ := rfl

theorem shutdownAccount_of_reach {clients : List Nat} {c : Config Impl Thread Event}
    (h : threadManager.Reach (fresh clients) c) : ShutdownAccount c :=
  h.invariant (shutdownAccount_fresh clients) fun h _ step =>
    shutdownAccount_step h (change_of_step step)

/-- No `Add` is accepted after the beginning of the shutdown, all along a run, exactly
if no `Add` comes back from its wait to a queue with room in a manager that is not
`STARTED`; and in such a run every push happens in state `STARTED`. -/
theorem accepts_only_open (clients : List Nat) (mvs : List (Move Act)) :
    (threadManager.Throughout AcceptsOnlyOpen (fresh clients) mvs ↔
      threadManager.EachStep ResumesOpen (fresh clients) mvs) ∧
    ∀ c mv c', threadManager.Run ResumesOpen (fresh clients) c → ResumesOpen c mv →
      threadManager.Step c mv c' → c.shared.state ≠ .started →
      ∃ es, c'.log = c.log ++ es ∧ ∀ e ∈ es, e.2.accepts = false := by
  have keeps {c c' : Config Impl Thread Event} {mv : Move Act}
      (h : ShutdownAccount c ∧ AcceptsOnlyOpen c) (ok : ResumesOpen c mv)
      (step : threadManager.Step c mv c') : ShutdownAccount c' ∧ AcceptsOnlyOpen c' :=
    ⟨shutdownAccount_step h.1 (change_of_step step),
      acceptsOnlyOpen_step h.1 h.2 ok (change_of_step step)⟩
  refine ⟨Program.throughout_iff And.right keeps
    (fun h bad step => resumed_add_accepts h.1 bad (change_of_step step))
    ⟨shutdownAccount_fresh clients, by simp [AcceptsOnlyOpen, afterClosing, fresh]⟩ mvs, ?_⟩
  intro c mv c' run ok step closed
  have change := change_of_step step
  clear step
  cases change with
  | spurious => exact ⟨[], by simp, by simp⟩
  | @worker i a cs t w o ts alive here idle place step delivered =>
    refine ⟨_, rfl, ?_⟩
    intro e he
    obtain ⟨e, mem, rfl⟩ := List.mem_map.mp he
    exact (not_accepts_byWorker (step.events e mem)).2
  | @call i a cs t d o ts alive here makesCalls place step delivered =>
    refine ⟨_, rfl, ?_⟩
    intro e he
    obtain ⟨e, mem, rfl⟩ := List.mem_map.mp he
    cases step.shutdown with
    | neither _ _ events | opens _ _ events => exact (events e mem).2
    | closes _ _ rejects => exact rejects e mem
    | accepts _ _ _ opened =>
      rcases opened with opened | ⟨⟨now, rfl⟩, room⟩
      · exact absurd opened closed
      · rcases ok rfl with opened | full
        · exact absurd opened closed
        · simp [room] at full

/-- One worker, a queue with room for one task, and an `Add` that waits for room. -/
def fillQueue : List (Move Act) :=
  [.run 0 (.call (.setThreadFactory true)) [], .run 0 (.call (.start (some (1, 1)))) [],
    .run 0 (.call .setPendingTaskCountMax) [], .run 0 (.call .testStopped) [],
    .run 0 (.call .lockStart) [], .run 0 (.call .newThreads) [], .run 0 (.call .raise) [],
    .run 0 (.call (.startThread (some 7))) [], .run 2 (.worker .enter) [],
    .run 2 (.worker .announce) [], .run 0 (.call .register) [], .run 0 (.call .awaitAdded) [],
    .run 0 (.call (.add ⟨10, 0, 0⟩ ⟨fun _ => 0, none⟩ 0)) [],
    .run 0 (.call (.add ⟨11, 0, 0⟩ ⟨fun _ => 0, none⟩ 0)) []]

/-- The worker takes a task and makes room for the waiting `Add`. -/
def makeRoom : List (Move Act) := fillQueue ++ [.run 2 (.worker (.iterate ⟨fun _ => 0, none⟩)) [0]]

theorem accepts_only_open_makeRoom :
    threadManager.Throughout AcceptsOnlyOpen (fresh [1, 2])
        (makeRoom ++ [.run 0 (.call (.resumeAdd 0)) []]) ∧
      ∃ c mv c', threadManager.Step c mv c' ∧ c.shared.state ≠ .started ∧
        ∃ es, c'.log = c.log ++ es ∧ ∀ e ∈ es, e.2.accepts = false := by
  refine ⟨(accepts_only_open [1, 2] _).1.mpr (by decide), ?_⟩
  obtain ⟨c, run, next, closed⟩ := threadManager.exists_run ResumesOpen (fresh [1, 2])
    (fun c => (threadManager.step c (.run 1 (.call .readCount) [])).isSome ∧
      c.shared.state ≠ .started)
    (makeRoom ++ [.run 1 (.call (.stop true)) [], .run 1 (.call .lockStop) []]) (by decide)
  obtain ⟨c', step⟩ := Option.isSome_iff_exists.mp next
  have step := threadManager.step_iff.mp step
  exact ⟨c, _, c', step, closed,
    (accepts_only_open [1, 2] []).2 c (.run 1 (.call .readCount) []) c' run nofun step closed⟩

/-- The waiting `Add` is woken by the worker that drains the queue, but comes back
only when the pool is gone and the manager has stopped. -/
def addAfterStop : List (Move Act) :=
  fillQueue ++
    [.run 1 (.call (.stop true)) [], .run 1 (.call .lockStop) [],
      .run 2 (.worker (.iterate ⟨fun _ => 0, none⟩)) [0], .run 2 (.worker .run) [],
      .run 2 (.worker (.finish false)) [], .run 1 (.call .readCount) [], .run 1 (.call .lower) [],
      .run 2 (.worker (.iterate ⟨fun _ => 0, none⟩)) [], .run 2 (.worker .exit) [],
      .run 1 (.call .awaitRemoved) [], .run 1 (.call .finishStop) [],
      .run 0 (.call (.resumeAdd 0)) []]

theorem add_returns_after_stop : ∃ c, threadManager.Reach (fresh [1, 2]) c ∧
    ¬ AcceptsOnlyOpen c ∧ c.shared.state = .stopped ∧ c.shared.tasks.length = 1 ∧
    c.shared.workerCount = 0 ∧ (c.threads[2]?).map Thread.worker = some .finished ∧
    c.log.getLast? = some (0, .returned .add) :=
  threadManager.exists_reach _ _ addAfterStop (by decide)

end Threads.Manager
