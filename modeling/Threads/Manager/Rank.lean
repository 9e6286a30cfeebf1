import Threads.Concurrency.Progress
import Threads.Manager.Accounting

/-!
# The manager comes to rest

Once no more calls begin, workers and the calls in progress can go on for only so
long: each block leaves less to do, on the way to a wait, to an end, or to one of the
blocks that may notify every waiter, which each call has at most one of.
-/

namespace Threads.Manager

open Concurrency

/-- No call begins, and nobody wakes up without a notification. -/
def Continues (c : Config Impl Thread Event) : Move Act → Prop
  | .run i (.call _) _ => (c.threads[i]?).map Thread.call ≠ some .none
  | .run _ (.worker _) _ => True
  | .spurious _ => False

instance (c : Config Impl Thread Event) : DecidablePred (Continues c)
  | .spurious _ => isFalse id
  | .run _ (.worker _) _ => isTrue trivial
  | .run i (.call _) _ => inferInstanceAs (Decidable ((c.threads[i]?).map Thread.call ≠ some .none))

/-! ## What is left to do -/

/-- One for a call on its way to a block that may notify every waiter. -/
def broadcasts : Call → Nat
  | .simpleStart _ _ | .testStopped _ | .start _ => 1
  | .stopImpl _ | .readCount _ | .removeWorker _ _ => 1
  | _ => 0

instance : SteadyCall broadcasts := ⟨fun c => by cases c <;> rfl⟩

/-- The work a worker may still do before it parks or ends, and that its notifications
may give to others. -/
def Worker.effort : Worker → Nat
  | .absent | .finished | .escaped => 0
  | .parked | .leaving _ => 2
  | .loop | .woken => 3
  | .running _ => 4
  | .announce | .holding _ => 5
  | .entry => 6

/-- What `Start` still does when `Impl::Start` has returned. -/
def startEffort : Option Nat → Nat
  | none => 0
  | some workers => 3 + 8 * workers

/-- The same for a call, which hands its threads the work of a worker at its entry. -/
def Call.effort : Call → Nat
  | .none | .addedParked => 0
  | .awaitAdded | .finishStop _ _ | .removedParked _ => 1
  | .awaitRemoved _ => 2
  | .startThreads objects => 1 + 8 * objects.length
  | .addWorker objects | .register _ objects => 2 + 8 * objects.length
  | .newThreads value => 3 + 8 * value
  | .addParked _ => 5
  | .addWoken _ => 6
  | .removeWorker _ _ => 7
  | .readCount _ => 8
  | .stopImpl _ => 9
  | .startParked workers => startEffort workers + 1
  | .startWoken workers => startEffort workers + 2
  | .start workers => startEffort workers + 3
  | .testStopped workers => startEffort (some workers) + 4
  | .simpleStart workers _ => startEffort (some workers) + 5

def Thread.effort (t : Thread) : Nat := t.worker.effort + t.call.effort

/-- A queued task is work for whoever takes it off the queue. -/
def queueEffort (s : Impl) : Nat := 4 * s.tasks.length

def rank (c : Config Impl Thread Event) : Nat × Nat :=
  (total (onCall broadcasts) c.threads, queueEffort c.shared + total Thread.effort c.threads)

theorem effort_afterStart (workers : Option Nat) :
    (Call.afterStart workers).effort < (Call.startWoken workers).effort := by
  cases workers <;> exact Nat.lt_add_of_pos_right Nat.two_pos

theorem broadcasts_afterStart (workers : Option Nat) :
    broadcasts (Call.afterStart workers) = 0 := by
  cases workers <;> rfl

theorem effort_startLoop (objects : List Nat) :
    (Call.startLoop objects).effort < (Call.addWorker objects).effort := by
  cases objects with
  | nil => exact Nat.one_lt_two
  | cons => exact Nat.add_lt_add_right Nat.one_lt_two _

theorem broadcasts_startLoop (objects : List Nat) : broadcasts (Call.startLoop objects) = 0 := by
  cases objects <;> rfl

theorem Worker.effort_wake (w : Worker) :
    w.effort ≤ w.wake.effort ∧ w.wake.effort ≤ w.effort + 1 := by
  cases w with
  | parked => exact ⟨Nat.le_succ _, Nat.le_refl _⟩
  | _ => exact ⟨Nat.le_refl _, Nat.le_succ _⟩

theorem Call.effort_wake (d : Call) : d.effort ≤ d.wake.effort ∧ d.wake.effort ≤ d.effort + 1 := by
  cases d with
  | startParked => exact ⟨Nat.le_succ _, Nat.le_refl _⟩
  | addParked | addedParked | removedParked => exact ⟨Nat.le_succ _, Nat.le_refl _⟩
  | _ => exact ⟨Nat.le_refl _, Nat.le_succ _⟩

theorem wake_of_makesCalls {w : Worker} (h : w.makesCalls = true) : w.wake = w := by
  cases w <;> first | rfl | cases h

/-- A woken thread has to find out why. -/
theorem lifts_effort : threadManager.Lifts Thread.effort := by
  intro t _
  show t.effort ≤ t.worker.wake.effort + t.call.wake.effort ∧
    t.worker.wake.effort + t.call.wake.effort ≤ t.effort + 1
  unfold Thread.effort
  rcases t.calm with working | idle
  · have call := t.call.effort_wake
    rw [wake_of_makesCalls working]
    omega
  · have worker := t.worker.effort_wake
    have none : Call.none.wake = .none := rfl
    rw [idle, none]
    omega

/-! ## One block -/

/-- A block notifies one waiter at a time, and what it hands on is less than what it did. -/
structure Spends {Self : Type} (s : Impl) (before : Nat) (o : Effect Self) (after : Nat) :
    Prop where
  single : ∀ m ∈ o.signals, ∃ cond, m = .notify cond
  less : queueEffort o.shared + o.signals.length + after < queueEffort s + before

theorem Spends.silent {Self : Type} {s : Impl} {before after : Nat} {o : Effect Self}
    (none : o.signals = []) (queue : o.shared.tasks <:+ s.tasks) (less : after < before) :
    Spends s before o after := by
  have fewer : queueEffort o.shared ≤ queueEffort s := Nat.mul_le_mul_left 4 queue.length_le
  refine ⟨fun m mem => ?_, ?_⟩
  · rw [none] at mem
    cases mem
  · rw [none, List.length_nil]
    omega

theorem Spends.one {Self : Type} {s : Impl} {before after : Nat} {o : Effect Self} {cond : Cond}
    (one : o.signals = [.notify cond])
    (less : queueEffort o.shared + 1 + after < queueEffort s + before) :
    Spends s before o after := by
  refine ⟨fun m mem => ?_, ?_⟩
  · rw [one] at mem
    exact ⟨cond, List.mem_singleton.mp mem⟩
  · rwa [one]

theorem roomSignals_cases (s : Impl) :
    roomSignals s = [] ∨ roomSignals s = [.notify .maxMonitor] := by
  unfold roomSignals
  split
  · exact .inr rfl
  · exact .inl rfl

theorem pushSignals_cases (s : Impl) : pushSignals s = [] ∨ pushSignals s = [.notify .monitor] := by
  unfold pushSignals
  split
  · exact .inr rfl
  · exact .inl rfl

/-- A worker that finds a queue discards or takes at least one of its tasks. -/
theorem workBlock_spends {s : Impl} (some : s.tasks ≠ []) (env : Surroundings) :
    Spends s 3 (workBlock s env) (workBlock s env).self.effort := by
  have pass : (s.removeExpiredTasks env).tasks <:+ s.tasks := ⟨_, removeExpiredTasks_tasks s env⟩
  have nonempty : 0 < s.tasks.length := List.length_pos_iff.mpr some
  have shorter := pass.length_le
  have signalled {s' : Impl} {self : Worker} {events : List Event}
      (less : queueEffort s' + 1 + self.effort < queueEffort s + 3) :
      Spends s 3 { shared := s', self := self, signals := roomSignals s', events := events }
        self.effort := by
    rcases roomSignals_cases s' with none | one
    · refine ⟨fun m mem => ?_, ?_⟩
      · dsimp only at mem
        rw [none] at mem
        cases mem
      · rw [none, List.length_nil]
        dsimp only
        omega
    · exact .one one less
  unfold workBlock
  dsimp only
  split
  · exact .silent rfl pass (Nat.zero_lt_succ 2)
  · split
    · rename_i empty
      apply signalled
      simp only [queueEffort, empty, List.length_nil, Worker.effort]
      omega
    · rename_i t ts queue
      rw [queue, List.length_cons] at shorter
      apply signalled
      simp only [queueEffort, Worker.effort]
      omega

theorem WorkerStep.spends {s : Impl} {ref : ThreadRef} {w : Worker} {a : WorkerAct}
    {o : Effect Worker} (h : WorkerStep s ref w a o) : Spends s w.effort o o.self.effort := by
  cases h with
  | enters =>
    refine .silent rfl (List.suffix_refl _) ?_
    dsimp only
    split <;> decide
  | announced => exact .one rfl (Nat.lt_succ_self _)
  | works active some => exact workBlock_spends some _
  | @wakesAndWorks env active some =>
    have spends := workBlock_spends (s := { s with idleCount := decrement s.idleCount }) some env
    exact ⟨spends.single, spends.less⟩
  | exited =>
    unfold exitBlock
    dsimp only
    split
    · exact .one rfl (Nat.lt_succ_self _)
    · exact .silent rfl (List.suffix_refl _) (Nat.zero_lt_succ 1)
  | _ => exact .silent rfl (List.suffix_refl _) (by simp [Worker.effort])

/-- A call in progress passes the block that may notify every waiter, or it does less and
less on its way. -/
theorem CallStep.spends {s : Impl} {id : Nat} {d : Call} {a : CallAct} {o : Effect Call}
    (h : CallStep s id d a o) (begun : d ≠ .none) :
    broadcasts o.self < broadcasts d ∨ broadcasts o.self = broadcasts d ∧
      Spends s d.effort o (o.self.effort + total Thread.effort o.spawned) := by
  have waits (workers : Option Nat) : broadcasts (startWaitBlock s workers).self = 0 := by
    unfold startWaitBlock
    split
    · rfl
    · exact broadcasts_afterStart workers
  cases h with
  | simpleStart | startRefused | startTested | addWorker | removeWorker | stopRefused | stopTested |
    addRefused | addRaised | addParks | addTooMany | adds | guardFails | remove |
    removeNextPending | removeExpiredTasks | expiredTaskCount | setExpireCallback |
    setThreadFactory =>
    exact absurd rfl begun
  | setPendingTaskCountMax | simpleStartTested | shutsDown | readCount | finishStop | timesOut |
    newThreads | addedParks | added | removedParks =>
    refine .inr ⟨rfl, .silent rfl (List.suffix_refl _) ?_⟩
    simp [Call.effort, startEffort, newThreadsBlock, addTimedOutBlock]
  | simpleStartRefused => exact .inl Nat.zero_lt_one
  | @started workers =>
    refine .inl ?_
    dsimp only
    rw [broadcasts_afterStart]
    exact Nat.zero_lt_one
  | startFails | lowerFails | lowers | skipsRemoval => exact .inl Nat.zero_lt_one
  | @startAgain workers =>
    refine .inl ?_
    rw [waits]
    exact Nat.zero_lt_one
  | @resumeStart workers =>
    refine .inr ⟨waits workers, ?_⟩
    unfold startWaitBlock
    split
    · exact .silent rfl (List.suffix_refl _) (Nat.lt_succ_self _)
    · exact .silent rfl (List.suffix_refl _) (effort_afterStart workers)
  | @raise objects =>
    exact .inr ⟨broadcasts_startLoop objects,
      .silent rfl (List.suffix_refl _) (effort_startLoop objects)⟩
  | @startThread object objects created =>
    cases created with
    | none =>
      refine .inr ⟨rfl, .silent rfl (List.suffix_refl _) ?_⟩
      simp only [startThreadBlock, Call.effort, List.length_cons, total_nil]
      omega
    | some id =>
      refine .inr ⟨rfl, .silent rfl (List.suffix_refl _) ?_⟩
      simp only [startThreadBlock, Call.effort, List.length_cons, total_cons, total_nil,
        Thread.effort, Worker.effort]
      omega
  | @register thread objects =>
    exact .inr ⟨broadcasts_startLoop objects,
      .silent rfl (List.suffix_refl _) (effort_startLoop objects)⟩
  | @removed caller =>
    cases caller <;>
      exact .inr ⟨rfl, .silent rfl (List.suffix_refl _) (by simp [Call.afterRemove, Call.effort])⟩
  | resumesFull => exact .inr ⟨rfl, .silent rfl (List.suffix_refl _) (Nat.lt_succ_self _)⟩
  | @resumesAndAdds r now room =>
    refine .inr ⟨rfl, ?_⟩
    have longer : queueEffort (pushed s r now) = queueEffort s + 4 := by
      simp [queueEffort, pushed, Nat.mul_add]
    rcases pushSignals_cases s with none | one
    · refine ⟨fun m mem => ?_, ?_⟩
      · simp [pushBlock, none] at mem
      · simp [pushBlock, none, longer, Call.effort]
    · refine .one one ?_
      simp [pushBlock, longer, Call.effort]

/-! ## Every step lowers the rank -/

theorem rank_lowers {c c' : Config Impl Thread Event} {mv : Move Act} (ok : Continues c mv)
    (change : Change c mv c') : Prod.Lex (· < ·) (· < ·) (rank c') (rank c) := by
  cases change with
  | spurious => exact ok.elim
  | @worker i a cs t w o ts alive here idle place step delivered =>
    subst place
    have spends := step.spends
    have same := total_worker_call broadcasts
      (threadManager.deliver_woken delivered) here idle o.self
    have moved := Program.total_run_le lifts_effort spends.single delivered here
      (t.withWorker idle o.self) []
    have before : t.effort = t.worker.effort + t.call.effort := rfl
    have after : (t.withWorker idle o.self).effort = o.self.effort + t.call.effort := rfl
    have less := spends.less
    rw [List.append_nil, total_nil] at moved
    unfold rank
    dsimp only
    rw [same]
    exact .right _ (by omega)
  | @call i a cs t d o ts alive here makesCalls place step delivered =>
    subst place
    have begun : t.call ≠ .none := by simpa [Continues, here] using ok
    have woken := threadManager.deliver_woken delivered
    have calls := step.moves_calls broadcasts rfl woken here makesCalls
    have before : t.effort = t.worker.effort + t.call.effort := rfl
    have after : (t.withCall makesCalls o.self).effort = t.worker.effort + o.self.effort := rfl
    unfold rank
    dsimp only
    rcases step.spends begun with first | ⟨same, spends⟩
    · exact .left _ _ (by omega)
    · have moved := Program.total_run_le lifts_effort spends.single delivered here
        (t.withCall makesCalls o.self) o.spawned
      have less := spends.less
      have equal :
          total (onCall broadcasts) (ts.set i (t.withCall makesCalls o.self) ++ o.spawned) =
            total (onCall broadcasts) c.threads := by omega
      rw [equal]
      exact .right _ (by omega)

theorem broadcasts_le (d : Call) : broadcasts d ≤ 1 := by
  cases d <;> first | exact Nat.zero_le 1 | exact Nat.le_refl 1

/-- A call that begins has at most one block to come that may notify every waiter. -/
theorem rank_run_le {c c' : Config Impl Thread Event} {i : Nat} {a : Act} {cs : List Nat}
    (change : Change c (.run i a cs) c') : (rank c').1 ≤ (rank c).1 + 1 := by
  unfold rank
  cases change with
  | @worker i a cs t w o ts alive here idle place step delivered =>
    have same := total_worker_call broadcasts
      (threadManager.deliver_woken delivered) here idle o.self
    exact same.trans_le (Nat.le_succ _)
  | @call i a cs t d o ts alive here makesCalls place step delivered =>
    subst place
    have moved := step.moves_calls broadcasts rfl
      (threadManager.deliver_woken delivered) here makesCalls
    have one := broadcasts_le o.self
    dsimp only
    omega

theorem acc_continues (c : Config Impl Thread Event) : Acc (threadManager.Follows Continues) c :=
  Program.acc_of_rank (Prod.lex Nat.lt_wfRel Nat.lt_wfRel).wf (fun _ => True) rank
    (fun _ ok step => ⟨trivial, rank_lowers ok (change_of_step step)⟩) trivial

/-- From any configuration, reachable or not, the workers and the calls in progress come to
rest; and an endless run begins calls, or has spurious wakeups, again and again. -/
theorem comes_to_rest :
    (∀ c, ∃ c', threadManager.Run Continues c c' ∧ threadManager.Resting Continues c') ∧
      ∀ visits moves, threadManager.Endless visits moves →
        ∀ n, ∃ m, n ≤ m ∧ ¬ Continues (visits m) (moves m) :=
  ⟨fun c => Program.exists_resting (acc_continues c), fun visits _ endless n =>
    endless.interrupted (fun m => acc_continues (visits m)) n⟩

end Threads.Manager
