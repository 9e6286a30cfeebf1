import Threads.Manager.Accounting

/-!
# Exceptions of tasks and callbacks

A worker swallows what a task throws. The expiry pass it makes before runs the
expire callback outside of any handler and before it takes the task off the queue,
and `Add` makes the same pass.
-/

namespace Threads.Manager

open Concurrency

/-- No exception has left `Worker::Run`, and the expire callback has been called for
exactly the tasks that left the queue as expired while it was set, for each of them
once; each is counted once. -/
structure Contained (c : Config Impl Thread Event) : Prop where
  kept : ∀ t ∈ c.threads, t.worker ≠ .escaped
  called : CallsBack c.log
  calledOnce : (c.log.filterMap calledBackTask).Nodup
  expiredOnce : (c.log.filterMap expiredTask).Nodup
  counted : (c.log.filterMap countRead).sum + c.shared.expiredCount =
    (c.log.filterMap expiredTask).length

/-- The callback does not throw in the expiry pass of the step. -/
def PassesCalmly (c : Config Impl Thread Event) : Move Act → Prop
  | .run _ (.worker a) _ => ∀ env ∈ a.pass c.shared, (c.shared.expiry env).raised = false
  | .run _ (.call a) _ => ∀ env ∈ a.pass c.shared, (c.shared.expiry env).raised = false
  | .spurious _ => True

instance (c : Config Impl Thread Event) : DecidablePred (PassesCalmly c)
  | .spurious _ => isTrue trivial
  | .run _ (.worker a) _ => inferInstanceAs (Decidable (∀ env ∈ a.pass c.shared, _))
  | .run _ (.call a) _ => inferInstanceAs (Decidable (∀ env ∈ a.pass c.shared, _))

/-! ## A pass whose callback throws -/

/-- Only a callback that is set throws. -/
theorem expirePass_raised_callback {callback : Bool} {env : Surroundings} {i : Nat} {now : Int}
    {ts : List Task} (raised : (expirePass callback env i now ts).raised = true) :
    callback = true := by
  induction ts generalizing i now with
  | nil => cases raised
  | cons t ts ih =>
    unfold expirePass at raised
    split at raised
    · cases raised
    · split at raised
      · cases raised
      · split at raised
        · rename_i throws
          exact (Bool.and_eq_true_iff.mp throws).1
        · exact ih raised

/-- The task the callback threw for has been passed to it and has not expired. -/
theorem expiryEntries_raised (s : Impl) (env : Surroundings) (j : Nat)
    (raised : (s.expiry env).raised = true) :
    ((expiryEntries s env j).filterMap calledBackTask).length =
      ((expiryEntries s env j).filterMap expiredCalled).length + 1 := by
  have callback : s.expireCallback = true := expirePass_raised_callback raised
  obtain ⟨t, ts, rest⟩ := List.exists_cons_of_ne_nil (expirePass_raised_rest raised)
  unfold expiryEntries Impl.expiryEvents
  rw [if_pos raised, show (s.expiry env).rest = t :: ts from rest]
  induction (s.expiry env).expired with
  | nil => rfl
  | cons u us ih =>
    simp only [List.flatMap_cons, List.append_assoc, List.map_append, List.filterMap_append,
      List.length_append, callback, if_true] at ih ⊢
    simp only [List.map_cons, List.map_nil, List.filterMap_cons, List.filterMap_nil, calledBackTask,
      expiredCalled, List.length_cons, List.length_nil] at ih ⊢
    omega

theorem not_callsBack_of_length {es : List Entry}
    (longer : (es.filterMap calledBackTask).length = (es.filterMap expiredCalled).length + 1) :
    ¬ CallsBack es := by
  intro called
  rw [called] at longer
  omega

theorem CallsBack.of_append {es es' : List Entry} (h : CallsBack es)
    (both : CallsBack (es ++ es')) : CallsBack es' := by
  unfold CallsBack at *
  rw [List.filterMap_append, List.filterMap_append, h] at both
  exact List.append_cancel_left both

theorem not_callsBack_expiry {s : Impl} {env : Surroundings} {j : Nat}
    (raised : (s.expiry env).raised = true) {es : List Event}
    (rest : CallsBack (es.map (Prod.mk j))) :
    ¬ CallsBack ((s.expiryEvents env ++ es).map (Prod.mk j)) := by
  apply not_callsBack_of_length
  have pass := expiryEntries_raised s env j raised
  unfold expiryEntries at pass
  rw [List.map_append, List.filterMap_append, List.filterMap_append, List.length_append,
    List.length_append, rest]
  omega

theorem workBlock_raised {s : Impl} {env : Surroundings} (raised : (s.expiry env).raised = true) :
    (workBlock s env).events = s.expiryEvents env := by
  unfold workBlock
  rw [if_pos raised]

theorem workBlock_escaped {s : Impl} {env : Surroundings}
    (escaped : (workBlock s env).self = .escaped) : (s.expiry env).raised = true := by
  unfold workBlock at escaped
  dsimp only at escaped
  split at escaped
  · assumption
  · split at escaped <;> cases escaped

theorem not_raised_of_empty {s : Impl} {env : Surroundings} (empty : s.tasks = []) :
    (s.expiry env).raised = false := by
  unfold Impl.expiry
  rw [empty]
  rfl

/-- A pass of a worker whose callback throws ends the worker. -/
theorem WorkerStep.not_callsBack {s : Impl} {ref : ThreadRef} {w : Worker} {a : WorkerAct}
    {o : Effect Worker} (h : WorkerStep s ref w a o) {env : Surroundings} (pass : env ∈ a.pass s)
    (raised : (s.expiry env).raised = true) (j : Nat) :
    ¬ CallsBack (o.events.map (Prod.mk j)) := by
  have own (env' : Surroundings) (pass : env ∈ if s.isActive then some env' else none) :
      s.isActive = true ∧ env' = env := by
    simpa using pass
  cases h with
  | parks _ empty | parksAgain _ empty =>
    rw [not_raised_of_empty empty] at raised
    cases raised
  | leaves inactive | wakesAndLeaves inactive =>
    rw [(own _ pass).1] at inactive
    cases inactive
  | works =>
    obtain ⟨-, rfl⟩ := own _ pass
    rw [workBlock_raised raised]
    exact not_callsBack_of_length (expiryEntries_raised s _ j raised)
  | wakesAndWorks =>
    obtain ⟨-, rfl⟩ := own _ pass
    have events := workBlock_raised (s := { s with idleCount := decrement s.idleCount }) raised
    rw [events]
    exact not_callsBack_of_length (expiryEntries_raised s _ j raised)
  | _ => cases pass

theorem WorkerStep.kept {s : Impl} {ref : ThreadRef} {w : Worker} {a : WorkerAct}
    {o : Effect Worker} (h : WorkerStep s ref w a o)
    (calm : ∀ env ∈ a.pass s, (s.expiry env).raised = false) : o.self ≠ .escaped := by
  intro escaped
  cases h with
  | works active =>
    have raised := workBlock_escaped escaped
    rw [calm _ (if_pos active)] at raised
    cases raised
  | @wakesAndWorks env active =>
    have raised := workBlock_escaped escaped
    have none : (s.expiry env).raised = false := calm env (if_pos active)
    exact Bool.false_ne_true (none.symm.trans raised)
  | enters =>
    dsimp only at escaped
    split at escaped <;> cases escaped
  | _ => cases escaped

theorem CallStep.not_callsBack {s : Impl} {id : Nat} {d : Call} {a : CallAct} {o : Effect Call}
    (h : CallStep s id d a o) {env : Surroundings} (pass : env ∈ a.pass s)
    (raised : (s.expiry env).raised = true) (j : Nat) :
    ¬ CallsBack (o.events.map (Prod.mk j)) := by
  have own (env' : Surroundings) (pass : env ∈ if s.state = .started then some env' else none) :
      s.state = .started ∧ env' = env := by
    simpa using pass
  cases h with
  | addRefused closed => exact absurd (own _ pass).1 closed
  | addParks =>
    obtain ⟨-, rfl⟩ := own _ pass
    exact not_callsBack_of_length (expiryEntries_raised s _ j raised)
  | addRaised | addTooMany | adds =>
    obtain ⟨-, rfl⟩ := own _ pass
    exact not_callsBack_expiry raised rfl
  | removeExpiredTasks =>
    obtain rfl := Option.some.inj pass
    exact not_callsBack_expiry raised (by split <;> rfl)
  | _ => cases pass

/-! ## A run -/

/-- The queue account, with the callback called as it should be and every worker kept. -/
structure ExceptionAccount (c : Config Impl Thread Event) : Prop where
  queue : QueueAccount c
  called : CallsBack c.log
  kept : ∀ t ∈ c.threads, t.worker ≠ .escaped

theorem ExceptionAccount.contained {c : Config Impl Thread Event} (h : ExceptionAccount c) :
    Contained c where
  kept := h.kept
  called := h.called
  calledOnce := by
    rw [show c.log.filterMap calledBackTask = _ from h.called]
    apply h.queue.nodup_of_taken
    rintro ⟨j, e⟩ t eq
    cases e with
    | expired task callback => cases callback <;> simp_all [expiredCalled, takenTask]
    | _ => simp [expiredCalled] at eq
  expiredOnce := h.queue.expired_nodup
  counted := h.queue.counted.symm

section Step

variable {c c' : Config Impl Thread Event} {mv : Move Act}

theorem exceptionAccount_step (h : ExceptionAccount c) (ok : PassesCalmly c mv)
    (change : Change c mv c') : ExceptionAccount c' := by
  have queue := queueAccount_step h.queue change
  have wake (t : Thread) (_ : t.waitsOn ≠ none) (kept : t.worker ≠ .escaped) :
      t.wake.worker ≠ .escaped := by
    show t.worker.wake ≠ .escaped
    generalize t.worker = w at kept
    cases w with
    | escaped => exact absurd rfl kept
    | _ =>
      intro escaped
      cases escaped
  cases change with
  | @spurious i t here waits =>
    refine ⟨queue, h.called, fun u mem => ?_⟩
    rcases List.mem_or_eq_of_mem_set mem with old | rfl
    · exact h.kept u old
    · exact wake t waits (h.kept t (List.mem_of_getElem? here))
  | @worker i a cs t w o ts alive here idle place step delivered =>
    refine ⟨queue, h.called.append (step.callsBack ok i), ?_⟩
    have every := threadManager.forall_run (fun t => t.worker ≠ .escaped) wake
      (threadManager.deliver_woken delivered) h.kept (t.withWorker idle o.self) (step.kept ok) []
      (fun u mem => absurd mem List.not_mem_nil) i
    simpa only [List.append_nil] using every
  | @call i a cs t d o ts alive here makesCalls place step delivered =>
    refine ⟨queue, h.called.append (step.callsBack ok i), ?_⟩
    refine threadManager.forall_run (fun t => t.worker ≠ .escaped) wake
      (threadManager.deliver_woken delivered) h.kept (t.withCall makesCalls o.self)
      (h.kept t (List.mem_of_getElem? here)) o.spawned (fun u mem => ?_) i
    rcases step.spawned with none | ⟨ref, one⟩
    · rw [none] at mem
      cases mem
    · rw [one, List.mem_singleton] at mem
      rw [mem]
      intro escaped
      cases escaped

/-- The throwing callback has been called for a task that is still queued. -/
theorem exception_gets_out (h : ExceptionAccount c) (bad : ¬ PassesCalmly c mv)
    (change : Change c mv c') : ¬ Contained c' := by
  intro contained
  cases change with
  | spurious => exact bad trivial
  | worker alive here idle place step =>
    apply bad
    intro env pass
    by_contra raised
    exact step.not_callsBack pass (by simpa using raised) _ (h.called.of_append contained.called)
  | call alive here makesCalls place step =>
    apply bad
    intro env pass
    by_contra raised
    exact step.not_callsBack pass (by simpa using raised) _ (h.called.of_append contained.called)

end Step

/-- Exceptions are contained along a schedule exactly if the expire callback throws in
none of its passes; tasks may throw as they like. -/
theorem exceptions_contained_iff (clients : List Nat) (mvs : List (Move Act)) :
    threadManager.Throughout Contained (fresh clients) mvs ↔
      threadManager.EachStep PassesCalmly (fresh clients) mvs := by
  refine Program.throughout_iff ExceptionAccount.contained
    (fun h ok step => exceptionAccount_step h ok (change_of_step step))
    (fun h bad step => exception_gets_out h bad (change_of_step step))
    ⟨queueAccount_fresh clients, rfl, fun t mem => ?_⟩ mvs
  obtain ⟨id, -, rfl⟩ := List.mem_map.mp mem
  exact nofun

/-- A started manager with one worker and one task, which expires at 105. -/
def addExpiring : List (Move Act) :=
  addRunExpire.take 12 ++ [.run 0 (.call (.add ⟨10, 0, 5⟩ ⟨fun _ => 0, none⟩ 100)) []]

/-- At 200 the callback throws in the pass of an `Add`, and is called again in the next. -/
def callBackTwice : List (Move Act) :=
  addExpiring ++ [.run 0 (.call (.add ⟨11, 0, 0⟩ ⟨fun _ => 200, some 0⟩ 200)) [],
    .run 0 (.call (.add ⟨11, 0, 0⟩ ⟨fun _ => 200, none⟩ 200)) []]

/-- At 200 the callback throws in the worker's pass. -/
def throwInWorker : List (Move Act) :=
  addExpiring ++ [.run 1 (.worker (.iterate ⟨fun _ => 200, some 0⟩)) []]

theorem callback_exception_gets_out :
    (∃ c, threadManager.Reach (fresh [1]) c ∧ ¬ Contained c ∧
      c.log.filterMap calledBackTask = [0, 0] ∧ c.log.filterMap expiredTask = [0]) ∧
    ∃ c, threadManager.Reach (fresh [1]) c ∧ ¬ Contained c ∧ c.shared.terminated = true ∧
      (c.threads[1]?).map Thread.worker = some .escaped := by
  refine ⟨?_, ?_⟩
  · obtain ⟨c, reach, called, expired⟩ := threadManager.exists_reach (fresh [1])
      (fun c => c.log.filterMap calledBackTask = [0, 0] ∧ c.log.filterMap expiredTask = [0])
      callBackTwice (by decide)
    refine ⟨c, reach, fun h => ?_, called, expired⟩
    have once := h.calledOnce
    rw [called] at once
    cases once with
    | cons apart => exact apart 0 List.mem_cons_self rfl
  · obtain ⟨c, reach, ended, escaped⟩ := threadManager.exists_reach (fresh [1])
      (fun c => c.shared.terminated = true ∧ (c.threads[1]?).map Thread.worker = some .escaped)
      throwInWorker (by decide)
    obtain ⟨t, here, place⟩ := Option.map_eq_some_iff.mp escaped
    exact ⟨c, reach, fun h => h.kept t (List.mem_of_getElem? here) place, ended, escaped⟩

end Threads.Manager
