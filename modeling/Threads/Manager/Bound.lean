import Threads.Manager.Expiry
import Threads.Manager.Shutdown

/-!
# The bound of the queue

`Add` tests `pending_task_count_max_` after its expiry pass and again after each wait. It
pushes a task where it finds room, and otherwise leaves the queue to the others.
-/

namespace Threads.Manager

open Concurrency

/-- Since it was started the manager has had the bound `m`. -/
def BoundIs (m : Nat) (c : Config Impl Thread Event) (_ : ManagerMove) : Prop :=
  c.shared.state = .uninitialized ∨ c.shared.pendingTaskCountMax = m

instance (m : Nat) (c : Config Impl Thread Event) (mv : ManagerMove) :
    Decidable (BoundIs m c mv) := inferInstanceAs (Decidable (_ ∨ _))

/-- The blocks of `Add`. -/
def CallAct.ofAdd : CallAct → Bool
  | .add _ _ _ | .addGuardFails _ | .resumeAdd _ | .addTimesOut => true
  | _ => false

/-- A call that waits for room has a timeout that lets it wait. -/
def Call.patient : Call → Prop
  | .addParked r | .addWoken r => 0 ≤ r.timeout
  | _ => True

/-- The end of an `Add`. -/
def Event.endsAdd : Event → Bool
  | .returned .add | .threw .add _ => true
  | _ => false

theorem patient_wake {d : Call} (h : d.patient) : d.wake.patient := by
  cases d <;> exact h

/-! ## One block -/

section Block

variable {s : Impl} {id : Nat} {d : Call} {a : CallAct} {o : Effect Call}

theorem removeExpiredTasks_le (s : Impl) (env : Surroundings) :
    (s.removeExpiredTasks env).tasks.length ≤ s.tasks.length := by
  rw [← removeExpiredTasks_tasks s env, List.length_append]
  exact Nat.le_add_left _ _

/-- A queue with room has room for one more task. -/
theorem room_for_one {s : Impl} (bounded : 0 < s.pendingTaskCountMax) (room : s.full = false) :
    s.tasks.length + 1 ≤ s.pendingTaskCountMax := by
  simp only [Impl.full, bounded, decide_true, Bool.true_and, decide_eq_false_iff_not] at room
  exact Nat.lt_of_not_le room

theorem length_of_full {s : Impl} (full : s.full = true) :
    s.pendingTaskCountMax ≤ s.tasks.length := by
  simp only [Impl.full, Bool.and_eq_true, decide_eq_true_eq] at full
  exact full.2

/-- Only a manager that is started, or was when the call began to wait, gets a task. -/
theorem CallStep.within_bound {m : Nat} (h : CallStep s id d a o) (positive : 0 < m)
    (within : s.tasks.length ≤ m)
    (known : s.pendingTaskCountMax = m ∨ s.state ≠ .started ∧ Manager.awaitsRoom d = 0) :
    o.shared.tasks.length ≤ m := by
  cases h with
  | startAgain | resumeStart => rwa [startWaitBlock_shared]
  | startThread => rwa [startThreadBlock_shared]
  | remove => rwa [removeBlock_shared]
  | removeNextPending =>
    obtain ⟨tasks, suffix, eq⟩ := removeNextPendingBlock_shared s
    rw [eq]
    exact suffix.length_le.trans within
  | addRaised | addParks | addTooMany | removeExpiredTasks =>
    exact (removeExpiredTasks_le s _).trans within
  | @adds r env now opened room =>
    have bound : s.pendingTaskCountMax = m := known.resolve_right fun ⟨closed, _⟩ => closed opened
    have fits := room_for_one (s := s.removeExpiredTasks env) (bound ▸ positive) room
    have same : (s.removeExpiredTasks env).pendingTaskCountMax = m := bound
    rw [same] at fits
    show ((s.removeExpiredTasks env).tasks ++ [_]).length ≤ m
    rwa [List.length_append]
  | resumesAndAdds room =>
    have bound : s.pendingTaskCountMax = m := known.resolve_right fun other => by cases other.2
    have fits := room_for_one (s := s) (bound ▸ positive) room
    rw [bound] at fits
    show (s.tasks ++ [_]).length ≤ m
    rwa [List.length_append]
  | _ => exact within

theorem CallStep.patient (h : CallStep s id d a o) (waits : d.patient) : o.self.patient := by
  cases h with
  | addParks _ _ _ patient => exact patient
  | resumesFull => exact waits
  | @startAgain workers | @resumeStart workers =>
    unfold startWaitBlock
    split
    · trivial
    · cases workers <;> trivial
  | @startThread object objects created => cases created <;> trivial
  | @register thread objects => cases objects <;> trivial
  | @raise objects => cases objects <;> trivial
  | @started workers => cases workers <;> trivial
  | @removed caller => cases caller <;> trivial
  | remove =>
    obtain ⟨e, eq⟩ := removeBlock_eq s
    rw [eq]
    trivial
  | removeNextPending =>
    obtain ⟨tasks, es, -, eq⟩ := removeNextPendingBlock_eq s
    rw [eq]
    trivial
  | _ => trivial

theorem endsAdd_expiry {s : Impl} {env : Surroundings} {e : Event} (h : e ∈ s.expiryEvents env) :
    e.endsAdd = false := by
  rcases Impl.mem_expiryEvents h with ⟨t, rfl⟩ | ⟨t, callback, rfl⟩ <;> rfl

/-- Only `Add` reports its end. -/
theorem CallStep.ends_add (h : CallStep s id d a o) {e : Event} (mem : e ∈ o.events)
    (ends : e.endsAdd = true) : a.ofAdd = true := by
  have starts {workers : Option Nat} (mem : e ∈ startedEvents workers) : e.endsAdd = false := by
    cases workers with
    | none => rw [List.mem_singleton.mp mem]; rfl
    | some => cases mem
  have never {f : Event} (mem : e ∈ [f]) (other : f.endsAdd = false) : a.ofAdd = true := by
    rw [List.mem_singleton.mp mem, other] at ends
    cases ends
  cases h with
  | addRefused | addRaised | addParks | addTooMany | adds | guardFails | resumesFull |
      resumesAndAdds | timesOut => rfl
  | started =>
    rcases List.mem_cons.mp mem with rfl | mem
    · cases ends
    · rw [starts mem] at ends
      cases ends
  | startAgain | resumeStart =>
    unfold startWaitBlock at mem
    split at mem
    · cases mem
    · rw [starts mem] at ends
      cases ends
  | @startThread object objects created => cases created <;> cases mem
  | @lowerFails value caller =>
    cases caller with
    | client => exact never mem rfl
    | stopImpl join => cases join <;> exact never mem rfl
  | @removed caller =>
    cases caller with
    | client => exact never mem rfl
    | stopImpl => cases mem
  | @stopRefused join => cases join <;> exact never mem rfl
  | @finishStop join =>
    rcases List.mem_pair.mp mem with rfl | rfl
    · cases ends
    · cases join <;> cases ends
  | remove =>
    unfold removeBlock at mem
    split at mem <;> exact never mem rfl
  | removeNextPending =>
    unfold removeNextPendingBlock at mem
    split at mem
    · exact never mem rfl
    · split at mem
      · exact never mem rfl
      · rcases List.mem_pair.mp mem with rfl | rfl <;> cases ends
  | removeExpiredTasks =>
    rcases List.mem_append.mp mem with mem | mem
    · rw [endsAdd_expiry mem] at ends
      cases ends
    · split at mem <;> exact never mem rfl
  | startRefused | startFails | added | shutsDown | expiredTaskCount => exact never mem rfl
  | _ => cases mem

/-- A block of `Add` pushes a task and returns, or it takes expired tasks off the head of the
queue at most. -/
inductive AddBlock (s : Impl) (id : Nat) (a : CallAct) (o : Effect Call) : Prop
  | pushes (returns : .returned .add ∈ o.events) (calm : ∀ e, .threw .add e ∉ o.events)
  | leaves {expired : List Task} (queue : s.tasks = expired ++ o.shared.tasks)
      (old : ∀ t ∈ expired, ∃ r env now k, a = .add r env now ∧ t.expiredAt (env.clock k) = true)
      (stays : .returned .add ∉ o.events)
      (refused : .threw .add .tooManyPendingTasks ∈ o.events → ∃ r env now, a = .add r env now ∧
        s.state = .started ∧ (s.removeExpiredTasks env).full = true ∧
        (s.canSleep id = false ∨ r.timeout < 0))

theorem CallStep.addBlock (h : CallStep s id d a o) (adds : a.ofAdd = true) :
    AddBlock s id a o := by
  have old {r : Request} {env : Surroundings} {now : Int} (t : Task)
      (mem : t ∈ (s.expiry env).expired) : ∃ r' env' now' k,
        CallAct.add r env now = .add r' env' now' ∧ t.expiredAt (env'.clock k) = true := by
    obtain ⟨k, expired⟩ := Impl.expiry_expired mem
    exact ⟨r, env, now, k, rfl, expired⟩
  have other {env : Surroundings} {e : Event} (ends : e.endsAdd = true) :
      e ∉ s.expiryEvents env := by
    intro mem
    rw [endsAdd_expiry mem] at ends
    cases ends
  cases h with
  | addRefused =>
    exact .leaves (List.nil_append _).symm (fun _ mem => absurd mem List.not_mem_nil) (by simp)
      (by simp [notStarted])
  | addRaised =>
    refine .leaves (removeExpiredTasks_tasks s _).symm old ?_ ?_
    · simp [other (e := .returned .add) rfl]
    · simp [other (e := .threw .add .tooManyPendingTasks) rfl]
  | addParks =>
    refine .leaves (removeExpiredTasks_tasks s _).symm old (other rfl) ?_
    exact fun mem => absurd mem (other rfl)
  | addTooMany opened full refuses =>
    refine .leaves (removeExpiredTasks_tasks s _).symm old ?_ fun _ => ?_
    · simp [other (e := .returned .add) rfl]
    · exact ⟨_, _, _, rfl, opened, full, refuses⟩
  | adds =>
    refine .pushes (by simp) fun e => ?_
    simp [other (e := .threw .add e) rfl]
  | guardFails | timesOut =>
    exact .leaves (List.nil_append _).symm (fun _ mem => absurd mem List.not_mem_nil)
      (by simp [addTimedOutBlock])
      (by simp [addTimedOutBlock])
  | resumesFull =>
    exact .leaves (List.nil_append _).symm (fun _ mem => absurd mem List.not_mem_nil) (by simp)
      (by simp)
  | resumesAndAdds => exact .pushes (by simp [pushBlock]) (by simp [pushBlock])
  | _ => cases adds

end Block

/-! ## Runs -/

structure WithinBound (m : Nat) (c : Config Impl Thread Event) : Prop where
  account : ShutdownAccount c
  queue : c.shared.tasks.length ≤ m
  patient : ∀ t ∈ c.threads, t.call.patient

section Runs

variable {m : Nat} {c c' : Config Impl Thread Event} {mv : Move Act}

/-- A call that could push does so under the bound `m`. -/
theorem BoundIs.known (bound : BoundIs m c mv) (account : ShutdownAccount c) {i : Nat} {t : Thread}
    (here : c.threads[i]? = some t) : c.shared.pendingTaskCountMax = m ∨
      c.shared.state ≠ .started ∧ awaitsRoom t.call = 0 := by
  rcases bound with unopened | bound
  · refine .inr ⟨by rw [unopened]; decide, ?_⟩
    have present := le_total_of_getElem? (onCall awaitsRoom) here
    have own : onCall awaitsRoom t = awaitsRoom t.call := rfl
    by_cases waits : 0 < awaitsRoom t.call
    · have admitted := account.admitted (by omega)
      rw [unopened] at admitted
      exact absurd admitted (by decide)
    · exact Nat.eq_zero_of_not_pos waits
  · exact .inl bound

theorem withinBound_step (positive : 0 < m) (h : WithinBound m c) (bound : BoundIs m c mv)
    (change : Change c mv c') : WithinBound m c' := by
  obtain ⟨account, queue, patient⟩ := h
  have after := shutdownAccount_step account change
  cases change with
  | spurious here waits =>
    refine ⟨after, queue, fun t mem => ?_⟩
    rcases List.mem_or_eq_of_mem_set mem with mem | rfl
    · exact patient t mem
    · exact patient_wake (patient _ (List.mem_of_getElem? here))
  | worker alive here idle place step delivered =>
    exact ⟨after, step.tasks.length_le.trans queue,
      forall_worker (p := Call.patient) (fun _ => patient_wake)
        (threadManager.deliver_woken delivered) here idle _ patient⟩
  | call alive here makesCalls place step delivered =>
    subst place
    exact ⟨after, step.within_bound positive queue (bound.known account here),
      forall_call (p := Call.patient) (fun _ => patient_wake) trivial step
        (threadManager.deliver_woken delivered)
        makesCalls (step.patient (patient _ (List.mem_of_getElem? here)))
        fun _ u _ there => patient u (List.mem_of_getElem? there)⟩

end Runs

/-- What the blocks of the calls of `Add` of thread `i` do in a manager with the bound `m`. A
caller is refused at the bound for its timeout or as a worker, and a block that is not the
push of a call that returns leaves the queue, apart from expired tasks at its head. -/
structure AddRespects (m : Nat) (c : Config Impl Thread Event) (i : Nat) (a : CallAct)
    (c' : Config Impl Thread Event) : Prop where
  refused : (i, .threw .add .tooManyPendingTasks) ∈ c'.log.drop c.log.length →
    ∃ r env now, a = .add r env now ∧ m ≤ (c.shared.removeExpiredTasks env).tasks.length ∧
      (r.timeout < 0 ∨ ∃ t ∈ c.threads[i]?, ∃ ref ∈ c.shared.idMap, ref.id = t.ref.id)
  ends : ∀ e, (i, .threw .add e) ∈ c'.log.drop c.log.length →
    a.ofAdd = true ∧ (i, .returned .add) ∉ c'.log.drop c.log.length
  leaves : a.ofAdd = true → (i, .returned .add) ∉ c'.log.drop c.log.length →
    ∃ expired, c.shared.tasks = expired ++ c'.shared.tasks ∧
      ∀ t ∈ expired, ∃ r env now k, a = .add r env now ∧ t.expiredAt (env.clock k) = true

/-- The queue never exceeds its bound, `Add` refuses a task only at the bound and never waits
with a negative timeout, and an `Add` that throws has left the queue alone. -/
theorem add_within_bound {m : Nat} (positive : 0 < m) (clients : List Nat)
    {c : Config Impl Thread Event} (run : threadManager.Run (BoundIs m) (fresh clients) c) :
    c.shared.tasks.length ≤ m ∧
    (∀ t ∈ c.threads, ∀ r, t.call = .addParked r ∨ t.call = .addWoken r → 0 ≤ r.timeout) ∧
    ∀ {i a cs c'}, BoundIs m c (.run i (.call a) cs) →
      threadManager.Step c (.run i (.call a) cs) c' → AddRespects m c i a c' := by
  have init : WithinBound m (fresh clients) :=
    ⟨shutdownAccount_fresh clients, Nat.zero_le m, fun t mem => by
      obtain ⟨id, -, rfl⟩ := List.mem_map.mp mem
      trivial⟩
  have within := run.invariant init fun inv bound next =>
    withinBound_step positive inv bound (change_of_step next)
  refine ⟨within.queue, fun t mem r waits => ?_, fun {i a cs c'} bound next => ?_⟩
  · have patient := within.patient t mem
    rcases waits with waits | waits <;> rwa [waits] at patient
  · have change := change_of_step next
    clear next
    cases change with
    | @call _ _ _ t d o ts alive here makesCalls place step delivered =>
      have mine {e : Event} :
          (i, e) ∈ (c.log ++ o.events.map (Prod.mk i)).drop c.log.length ↔ e ∈ o.events := by
        rw [List.drop_left]
        simp
      refine ⟨fun threw => ?_, fun e threw => ?_, fun adds stays => ?_⟩
      · have adds := step.ends_add (mine.mp threw) rfl
        cases step.addBlock adds with
        | pushes _ calm => exact absurd (mine.mp threw) (calm _)
        | leaves _ _ _ refused =>
          obtain ⟨r, env, now, rfl, opened, full, refuses⟩ := refused (mine.mp threw)
          have limit : c.shared.pendingTaskCountMax = m :=
            bound.resolve_left fun unopened => by rw [unopened] at opened; cases opened
          refine ⟨r, env, now, rfl, limit ▸ length_of_full full, ?_⟩
          rcases refuses with known | hurried
          · simp only [Impl.canSleep, Bool.not_eq_false', List.any_eq_true, beq_iff_eq] at known
            exact .inr ⟨t, here, known⟩
          · exact .inl hurried
      · have adds := step.ends_add (mine.mp threw) rfl
        refine ⟨adds, fun returned => ?_⟩
        cases step.addBlock adds with
        | pushes _ calm => exact calm e (mine.mp threw)
        | leaves _ _ stays => exact stays (mine.mp returned)
      · cases step.addBlock adds with
        | pushes returns => exact absurd (mine.mpr returns) stays
        | leaves queue old => exact ⟨_, queue, old⟩

/-- An `Add` in a hurry is refused by a queue with a bound of one, in which another waits. -/
theorem add_within_bound_fillQueue : ∃ c c',
    threadManager.Step c (.run 1 (.call (.add ⟨12, -1, 0⟩ ⟨fun _ => 0, none⟩ 0)) []) c' ∧
    c.shared.tasks.length = 1 ∧ (c.threads[0]?).map Thread.call = some (.addParked ⟨11, 0, 0⟩) ∧
    c'.log.getLast? = some (1, .threw .add .tooManyPendingTasks) ∧
    AddRespects 1 c 1 (.add ⟨12, -1, 0⟩ ⟨fun _ => 0, none⟩ 0) c' := by
  obtain ⟨c, run, queue, waits, bound, next⟩ := threadManager.exists_run (BoundIs 1) (fresh [1, 2])
    (fun c => c.shared.tasks.length = 1 ∧
      (c.threads[0]?).map Thread.call = some (.addParked ⟨11, 0, 0⟩) ∧
      BoundIs 1 c (.run 1 (.call (.add ⟨12, -1, 0⟩ ⟨fun _ => 0, none⟩ 0)) []) ∧
      (threadManager.step c (.run 1 (.call (.add ⟨12, -1, 0⟩ ⟨fun _ => 0, none⟩ 0)) [])).any
        (fun c' => decide (c'.log.getLast? = some (1, .threw .add .tooManyPendingTasks))) = true)
    fillQueue (by decide)
  obtain ⟨c', step, refused⟩ := (Option.any_eq_true _ _).mp next
  have fires := threadManager.step_iff.mp step
  exact ⟨c, c', fires, queue, waits, of_decide_eq_true refused,
    (add_within_bound (by decide) [1, 2] run).2.2 bound fires⟩

end Threads.Manager
