import Threads.Concurrency.Ledger
import Threads.Manager.System

/-!
# The history of the queue

Each entry of the log is an event and the thread it happened in. The projections
below pick out of a log what one question about the queue is about. `Accounts`
says how one block moves the queue and the history together.
-/

namespace Threads.Manager

open Concurrency

/-- What has become of a task taken off the queue. -/
inductive Fate where
  | handed (worker : Nat)
  | expired
  | withdrawn
  deriving DecidableEq, Repr

abbrev Entry := Nat × Event

def pushedTask : Entry → Option Nat
  | (_, .pushed t) => some t
  | _ => none

def takenTask : Entry → Option (Nat × Fate)
  | (i, .dequeued t) => some (t, .handed i)
  | (_, .expired t _) => some (t, .expired)
  | (_, .withdrawn t _) => some (t, .withdrawn)
  | _ => none

def handedTo (i : Nat) : Entry → Option Nat
  | (j, .dequeued t) => if j = i then some t else none
  | _ => none

def ranBy (i : Nat) : Entry → Option Nat
  | (j, .ran t) => if j = i then some t else none
  | _ => none

def finishedBy (i : Nat) : Entry → Option Nat
  | (j, .finished t _) => if j = i then some t else none
  | _ => none

def calledBackTask : Entry → Option Nat
  | (_, .calledBack t) => some t
  | _ => none

/-- Tasks that expired while a callback was set. -/
def expiredCalled : Entry → Option Nat
  | (_, .expired t true) => some t
  | _ => none

def expiredTask : Entry → Option Nat
  | (_, .expired t _) => some t
  | _ => none

/-- The values `ExpiredTaskCount` has returned. -/
def countRead : Entry → Option Nat
  | (_, .counted n) => some n
  | _ => none

/-- What the `Add` calls of thread `i` did. -/
def addEvent (i : Nat) : Entry → Option Event
  | (j, .pushed t) => if j = i then some (.pushed t) else none
  | (j, .returned .add) => if j = i then some (.returned .add) else none
  | (j, .threw .add e) => if j = i then some (.threw .add e) else none
  | _ => none

/-- What a block may do to the `Add` call it is part of: nothing yet, one push and a
normal return, or an exception and no push. -/
inductive AddOutcome : List Event → Prop
  | nothing : AddOutcome []
  | added (task : Nat) : AddOutcome [.pushed task, .returned .add]
  | refused (e : Exception) : AddOutcome [.threw .add e]

/-- The history of the `Add` calls of one thread. -/
inductive AddHistory : List Event → Prop
  | nil : AddHistory []
  | snoc {es es'} : AddHistory es → AddOutcome es' → AddHistory (es ++ es')

/-- The task a worker has taken off the queue and not yet run, and the task it runs. -/
structure Hands where
  held : List Nat := []
  running : List Nat := []

def Worker.hands : Worker → Hands
  | .holding t => { held := [t.id] }
  | .running t => { running := [t.id] }
  | _ => {}

/-- A task in hand will be run. -/
def Worker.ready : Worker → Prop
  | .holding t => t.state = .executing
  | _ => True

/-- The events of a block of thread `j` account for the change from `s` to `s'`,
and from the tasks `h` in the thread's hands to `h'`. -/
structure Accounts (j : Nat) (s : Impl) (h : Hands) (s' : Impl) (h' : Hands) (es : List Entry) :
    Prop where
  queue : (es.filterMap takenTask).map Prod.fst ++ s'.tasks.map Task.id =
    s.tasks.map Task.id ++ es.filterMap pushedTask
  fresh : List.range s'.taskAllocs = List.range s.taskAllocs ++ es.filterMap pushedTask
  waiting : (∀ t ∈ s.tasks, t.state = .waiting) → ∀ t ∈ s'.tasks, t.state = .waiting
  held : h.held ++ es.filterMap (handedTo j) = es.filterMap (ranBy j) ++ h'.held
  running : h.running ++ es.filterMap (ranBy j) = es.filterMap (finishedBy j) ++ h'.running
  counted : s.expiredCount + (es.filterMap expiredTask).length =
    s'.expiredCount + (es.filterMap countRead).sum
  adds : AddOutcome (es.filterMap (addEvent j))

/-! ## The expiry pass -/

section Expiry

variable (s : Impl) (env : Surroundings) (j : Nat) (h : Hands)

abbrev expiryEntries : List Entry := (s.expiryEvents env).map (Prod.mk j)

theorem expiryEntries_eq_nil {β : Type} {p : Entry → Option β}
    (called : ∀ t, p (j, .calledBack t) = none) (expired : ∀ t b, p (j, .expired t b) = none) :
    (expiryEntries s env j).filterMap p = [] := by
  rw [List.filterMap_eq_nil_iff]
  intro e he
  obtain ⟨e, mem, rfl⟩ := List.mem_map.mp he
  rcases Impl.mem_expiryEvents mem with ⟨t, rfl⟩ | ⟨t, b, rfl⟩
  · exact called t
  · exact expired t b

/-- A projection that does not see the callback sees the expired tasks, in order. -/
theorem expiryEntries_expired {β : Type} {p : Entry → Option β} (g : Nat → β)
    (called : ∀ t, p (j, .calledBack t) = none)
    (expired : ∀ t b, p (j, .expired t b) = some (g t)) :
    (expiryEntries s env j).filterMap p = (s.expiry env).expired.map fun t => g t.id := by
  have tail : ((if (s.expiry env).raised then
      ((s.expiry env).rest.take 1).map (fun t => Event.calledBack t.id) else []).map
        (Prod.mk j)).filterMap p = [] := by
    rw [List.filterMap_eq_nil_iff]
    intro e he
    obtain ⟨e, mem, rfl⟩ := List.mem_map.mp he
    split at mem
    · obtain ⟨t, -, rfl⟩ := List.mem_map.mp mem
      exact called _
    · simp at mem
  unfold expiryEntries Impl.expiryEvents
  rw [List.map_append, List.filterMap_append, tail, List.append_nil]
  induction (s.expiry env).expired with
  | nil => rfl
  | cons t ts ih =>
    simp only [List.flatMap_cons, List.map_append, List.filterMap_append, ih, List.map_cons]
    by_cases callback : s.expireCallback = true <;> simp [callback, called, expired]

/-- When the callback does not throw, it is called for exactly the tasks that expire
while it is set. -/
theorem expiryEntries_called (calm : (s.expiry env).raised = false) :
    (expiryEntries s env j).filterMap calledBackTask =
      (expiryEntries s env j).filterMap expiredCalled := by
  unfold expiryEntries Impl.expiryEvents
  simp only [calm, Bool.false_eq_true, if_false, List.append_nil]
  induction (s.expiry env).expired with
  | nil => rfl
  | cons t ts ih =>
    simp only [List.flatMap_cons, List.map_append, List.filterMap_append, ih]
    congr 1
    split <;> rfl

theorem accounts_expiry :
    Accounts j s h (s.removeExpiredTasks env) h (expiryEntries s env j) where
  queue := by
    rw [expiryEntries_expired s env j (fun t => (t, Fate.expired)) (fun _ => rfl) (fun _ _ => rfl),
      expiryEntries_eq_nil s env j (fun _ => rfl) (fun _ _ => rfl), List.append_nil,
      ← removeExpiredTasks_tasks s env]
    simp
  fresh := by
    rw [expiryEntries_eq_nil s env j (fun _ => rfl) (fun _ _ => rfl), List.append_nil]
    rfl
  waiting h t ht :=
    h t (removeExpiredTasks_tasks s env ▸ List.mem_append_right (s.expiry env).expired ht)
  held := by
    rw [expiryEntries_eq_nil s env j (fun _ => rfl) (fun _ _ => rfl),
      expiryEntries_eq_nil s env j (fun _ => rfl) (fun _ _ => rfl), List.append_nil,
      List.nil_append]
  running := by
    rw [expiryEntries_eq_nil s env j (fun _ => rfl) (fun _ _ => rfl),
      expiryEntries_eq_nil s env j (fun _ => rfl) (fun _ _ => rfl), List.append_nil,
      List.nil_append]
  counted := by
    rw [expiryEntries_expired s env j id (fun _ => rfl) (fun _ _ => rfl),
      expiryEntries_eq_nil s env j (fun _ => rfl) (fun _ _ => rfl)]
    simp [Impl.removeExpiredTasks]
  adds := by
    rw [expiryEntries_eq_nil s env j (fun _ => rfl) (fun _ _ => rfl)]
    exact .nothing

end Expiry

/-! ## Every block -/

/-- One block after another. -/
theorem Accounts.append {j : Nat} {s s' s'' : Impl} {h h' h'' : Hands} {es es' : List Entry}
    (first : Accounts j s h s' h' es) (second : Accounts j s' h' s'' h'' es')
    (nothingPushed : es.filterMap pushedTask = []) (nothingAdded : es.filterMap (addEvent j) = [])
    (nothingRun : es'.filterMap (ranBy j) = []) :
    Accounts j s h s'' h'' (es ++ es') where
  queue := by
    have q₁ := first.queue
    have q₂ := second.queue
    rw [nothingPushed, List.append_nil] at q₁
    simp only [List.filterMap_append, List.map_append, nothingPushed, List.nil_append,
      List.append_assoc, q₂, ← q₁]
  fresh := by
    have f₁ := first.fresh
    rw [nothingPushed, List.append_nil] at f₁
    rw [List.filterMap_append, nothingPushed, List.nil_append, second.fresh, f₁]
  waiting := second.waiting ∘ first.waiting
  held := by
    have h₂ := second.held
    rw [nothingRun, List.nil_append] at h₂
    rw [List.filterMap_append, List.filterMap_append, nothingRun, List.append_nil, ← h₂,
      ← List.append_assoc, first.held, List.append_assoc]
  running := by
    have r₂ := second.running
    rw [nothingRun, List.append_nil] at r₂
    rw [List.filterMap_append, List.filterMap_append, nothingRun, List.append_nil, first.running,
      r₂, List.append_assoc]
  counted := by
    have c₁ := first.counted
    have c₂ := second.counted
    simp only [List.filterMap_append, List.length_append, List.sum_append]
    omega
  adds := by
    rw [List.filterMap_append, nothingAdded, List.nil_append]
    exact second.adds

/-- A block that touches neither the queue nor the expired count. -/
theorem accounts_of_frame {j : Nat} {s s' : Impl} {h : Hands} {es : List Entry}
    (tasks : s'.tasks = s.tasks) (allocs : s'.taskAllocs = s.taskAllocs)
    (expired : s'.expiredCount = s.expiredCount) (taken : es.filterMap takenTask = [])
    (pushed : es.filterMap pushedTask = []) (ran : es.filterMap (ranBy j) = [])
    (handed : es.filterMap (handedTo j) = []) (finished : es.filterMap (finishedBy j) = [])
    (read : es.filterMap countRead = []) (expiry : es.filterMap expiredTask = [])
    (adds : AddOutcome (es.filterMap (addEvent j))) :
    Accounts j s h s' h es where
  queue := by simp [tasks, taken, pushed]
  fresh := by simp [allocs, pushed]
  waiting := by simp [tasks]
  held := by simp [ran, handed]
  running := by simp [ran, finished]
  counted := by simp [expired, read, expiry]
  adds := adds

theorem accounts_dequeue (j : Nat) {s : Impl} {t : Task} {ts : List Task}
    (queue : s.tasks = t :: ts) :
    Accounts j s {} { s with tasks := ts } { held := [t.id] } [(j, .dequeued t.id)] where
  queue := by simp [queue, takenTask, pushedTask]
  fresh := by simp [pushedTask]
  waiting h u hu := h u (queue ▸ List.mem_cons_of_mem t hu)
  held := by simp [handedTo, ranBy]
  running := rfl
  counted := rfl
  adds := .nothing

theorem accounts_push (j : Nat) (s : Impl) (h : Hands) (r : Request) (now : Int) :
    Accounts j s h (pushed s r now) h [(j, .pushed s.taskAllocs), (j, .returned .add)] where
  queue := by
    have joined : (s.tasks ++ [Task.make s.taskAllocs r.value r.expiration now]).map Task.id =
        s.tasks.map Task.id ++ [s.taskAllocs] := by simp [Task.make]
    exact joined
  fresh := List.range_succ
  waiting h u hu := by
    rcases List.mem_append.mp hu with hu | hu
    · exact h u hu
    · rw [List.mem_singleton.mp hu]
      rfl
  held := List.append_nil _
  running := List.append_nil _
  counted := rfl
  adds := by simpa [addEvent] using AddOutcome.added s.taskAllocs

theorem accounts_workBlock (j : Nat) (s : Impl) (env : Surroundings) :
    Accounts j s {} (workBlock s env).shared (workBlock s env).self.hands
      ((workBlock s env).events.map (Prod.mk j)) := by
  have pass := accounts_expiry s env j {}
  unfold workBlock
  dsimp only
  split
  · exact ⟨pass.queue, pass.fresh, pass.waiting, pass.held, pass.running, pass.counted, pass.adds⟩
  · split
    · exact pass
    · rename_i t ts queue
      rw [List.map_append]
      have both := pass.append (accounts_dequeue j queue)
        (expiryEntries_eq_nil s env j (fun _ => rfl) (fun _ _ => rfl))
        (expiryEntries_eq_nil s env j (fun _ => rfl) (fun _ _ => rfl)) rfl
      simpa [Worker.hands] using both

theorem WorkerStep.accounts {s : Impl} {ref : ThreadRef} {w : Worker} {a : WorkerAct}
    {o : Effect Worker} (h : WorkerStep s ref w a o) (ready : w.ready) (j : Nat) :
    Accounts j s w.hands o.shared o.self.hands (o.events.map (Prod.mk j)) := by
  have frame {s' : Impl} (tasks : s'.tasks = s.tasks) (allocs : s'.taskAllocs = s.taskAllocs)
      (expired : s'.expiredCount = s.expiredCount) (es : List Entry)
      (silent : es = [] ∨ es = [(j, .left)]) : Accounts j s {} s' {} es := by
    rcases silent with rfl | rfl <;>
      exact accounts_of_frame tasks allocs expired rfl rfl rfl rfl rfl rfl rfl .nothing
  cases h with
  | enters =>
    dsimp only
    split <;> exact frame (by rfl) (by rfl) (by rfl) _ (.inl rfl)
  | works => exact accounts_workBlock j s _
  | @wakesAndWorks env =>
    have block := accounts_workBlock j { s with idleCount := decrement s.idleCount } env
    exact ⟨block.queue, block.fresh, block.waiting, block.held, block.running, block.counted,
      block.adds⟩
  | leaves | wakesAndLeaves => exact frame (by rfl) (by rfl) (by rfl) _ (.inr rfl)
  | @ran t executing =>
    exact ⟨(List.append_nil _).symm, (List.append_nil _).symm, id,
      by simp [Worker.hands, handedTo, ranBy], by simp [Worker.hands, ranBy, finishedBy], rfl,
      .nothing⟩
  | skipped other => exact absurd ready other
  | @done t raised =>
    exact ⟨(List.append_nil _).symm, (List.append_nil _).symm, id, rfl,
      by simp [Worker.hands, ranBy, finishedBy], rfl, .nothing⟩
  | _ => exact frame (by rfl) (by rfl) (by rfl) _ (.inl rfl)

/-- A worker comes away with a task that it will run. -/
theorem WorkerStep.ready {s : Impl} {ref : ThreadRef} {w : Worker} {a : WorkerAct}
    {o : Effect Worker} (h : WorkerStep s ref w a o) (waiting : ∀ t ∈ s.tasks, t.state = .waiting) :
    o.self.ready := by
  have working (s : Impl) (env : Surroundings) (waiting : ∀ t ∈ s.tasks, t.state = .waiting) :
      (workBlock s env).self.ready := by
    unfold workBlock
    dsimp only
    split
    · trivial
    · split
      · trivial
      · rename_i t ts queue
        have queued : t ∈ s.tasks := by
          rw [← removeExpiredTasks_tasks s env, queue]
          simp
        simp [Worker.ready, Task.begin, waiting t queued]
  cases h with
  | enters =>
    dsimp only
    split <;> trivial
  | works => exact working s _ waiting
  | wakesAndWorks => exact working _ _ waiting
  | _ => trivial

/-- An event that says nothing about the queue. -/
def Event.besideQueue : Event → Bool
  | .became _ => true
  | .returned op => op != .add
  | .threw op _ => op != .add
  | _ => false

theorem accounts_beside {j : Nat} {s s' : Impl} {h : Hands} (tasks : s'.tasks = s.tasks)
    (allocs : s'.taskAllocs = s.taskAllocs) (expired : s'.expiredCount = s.expiredCount)
    {es : List Event} (beside : ∀ e ∈ es, e.besideQueue = true) :
    Accounts j s h s' h (es.map (Prod.mk j)) := by
  have silent {β : Type} {p : Entry → Option β}
      (skip : ∀ e, e.besideQueue = true → p (j, e) = none) :
      (es.map (Prod.mk j)).filterMap p = [] := by
    rw [List.filterMap_eq_nil_iff]
    intro e he
    obtain ⟨e, mem, rfl⟩ := List.mem_map.mp he
    exact skip e (beside e mem)
  have added : (es.map (Prod.mk j)).filterMap (addEvent j) = [] := silent fun e he => by
    unfold Event.besideQueue at he
    split at he <;> simp_all [addEvent]
  refine accounts_of_frame tasks allocs expired (silent ?_) (silent ?_) (silent ?_) (silent ?_)
    (silent ?_) (silent ?_) (silent ?_) (added ▸ .nothing) <;>
  · intro e he
    unfold Event.besideQueue at he
    split at he <;> first | rfl | cases he

theorem accounts_refused (j : Nat) (s : Impl) (h : Hands) (e : Exception) :
    Accounts j s h s h [(j, .threw .add e)] :=
  accounts_of_frame rfl rfl rfl rfl rfl rfl rfl rfl rfl rfl
    (by simpa [addEvent] using AddOutcome.refused e)

/-- An `Add` begins with an expiry pass. -/
theorem Accounts.afterExpiry {j : Nat} {s s' : Impl} {h : Hands} {env : Surroundings}
    {es : List Event} (rest : Accounts j (s.removeExpiredTasks env) h s' h (es.map (Prod.mk j)))
    (nothingRun : (es.map (Prod.mk j)).filterMap (ranBy j) = []) :
    Accounts j s h s' h ((s.expiryEvents env ++ es).map (Prod.mk j)) := by
  rw [List.map_append]
  exact (accounts_expiry s env j h).append rest
    (expiryEntries_eq_nil s env j (fun _ => rfl) (fun _ _ => rfl))
    (expiryEntries_eq_nil s env j (fun _ => rfl) (fun _ _ => rfl)) nothingRun

theorem accounts_removeNextPending (j : Nat) (s : Impl) (h : Hands) :
    Accounts j s h (removeNextPendingBlock s).shared h
      ((removeNextPendingBlock s).events.map (Prod.mk j)) := by
  unfold removeNextPendingBlock
  split
  · exact accounts_beside rfl rfl rfl (by simp [Event.besideQueue])
  · split
    · exact accounts_beside rfl rfl rfl (by simp [Event.besideQueue])
    · rename_i t ts queue
      refine ⟨?_, (List.append_nil _).symm, ?_, List.append_nil _, List.append_nil _, rfl, .nothing⟩
      · simp only [queue, List.map_cons]
        exact (List.append_nil _).symm
      · intro h u hu
        exact h u (queue ▸ List.mem_cons_of_mem t hu)

theorem CallStep.accounts {s : Impl} {id : Nat} {d : Call} {a : CallAct} {o : Effect Call}
    (step : CallStep s id d a o) (j : Nat) (h : Hands) :
    Accounts j s h o.shared h (o.events.map (Prod.mk j)) := by
  have starts (workers : Option Nat) : ∀ e ∈ startedEvents workers, e.besideQueue = true := by
    cases workers <;> simp [startedEvents, Event.besideQueue]
  cases step with
  | @started workers =>
    apply accounts_beside (by rfl) (by rfl) (by rfl)
    intro e he
    rcases List.mem_cons.mp he with rfl | he
    · rfl
    · exact starts workers e he
  | @startAgain workers | @resumeStart workers =>
    unfold startWaitBlock
    split
    · exact accounts_beside (by rfl) (by rfl) (by rfl) (by simp)
    · exact accounts_beside (by rfl) (by rfl) (by rfl) (starts workers)
  | @startThread object objects created =>
    cases created <;> exact accounts_beside (by rfl) (by rfl) (by rfl) (by simp [startThreadBlock])
  | @lowerFails value caller =>
    apply accounts_beside (by rfl) (by rfl) (by rfl)
    cases caller with
    | client => simp [Caller.operation, Event.besideQueue]
    | stopImpl join => cases join <;> simp [Caller.operation, Operation.ofJoin, Event.besideQueue]
  | @removed caller =>
    apply accounts_beside (by rfl) (by rfl) (by rfl)
    cases caller <;> simp [removedEvents, Event.besideQueue]
  | @stopRefused join | @finishStop join =>
    apply accounts_beside (by rfl) (by rfl) (by rfl)
    cases join <;> simp [Operation.ofJoin, Event.besideQueue]
  | addRefused | guardFails | timesOut => exact accounts_refused j s h _
  | addParks => exact accounts_expiry s _ j h
  | addRaised | addTooMany => exact (accounts_refused j _ h _).afterExpiry rfl
  | adds => exact (accounts_push j _ h _ _).afterExpiry rfl
  | resumesAndAdds => exact accounts_push j s h _ _
  | remove =>
    unfold removeBlock
    split <;> exact accounts_beside rfl rfl rfl (by simp [Event.besideQueue])
  | removeNextPending => exact accounts_removeNextPending j s h
  | removeExpiredTasks =>
    refine Accounts.afterExpiry ?_ (by split <;> rfl)
    exact accounts_beside rfl rfl rfl fun e he => by
      split at he <;> rw [List.mem_singleton.mp he] <;> rfl
  | expiredTaskCount =>
    exact ⟨(List.append_nil _).symm, (List.append_nil _).symm, fun h => h,
      List.append_nil _, List.append_nil _, by simp [expiredTaskCountBlock]; rfl, .nothing⟩
  | newThreads | raise | register =>
    exact accounts_beside (by rfl) (by rfl) (by rfl) fun _ h => absurd h List.not_mem_nil
  | _ => exact accounts_beside (by rfl) (by rfl) (by rfl) (by simp [Event.besideQueue])

end Threads.Manager
