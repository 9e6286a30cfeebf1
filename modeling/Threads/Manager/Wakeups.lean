import Threads.Manager.Pool

/-!
# No lost wakeup of workers

While the calls that change the size of the pool take turns, a queue that is not
empty has an awake worker in its loop, unless the loop is empty.
-/

namespace Threads.Manager

open Concurrency

/-- A call that changes the size of the pool begins only when none is in progress. -/
def InTurn (c : Config Impl Thread Event) : Move Act → Prop
  | .run _ (.call a) _ => a.beginsResize = true → total (onCall resizes) c.threads = 0
  | _ => True

instance (c : Config Impl Thread Event) : DecidablePred (InTurn c)
  | .spurious _ | .run _ (.worker _) _ => isTrue trivial
  | .run _ (.call a) _ => inferInstanceAs (Decidable (a.beginsResize = true → _))

/-- The threads parked in `monitor_` with no notification delivered to them. -/
def parked (ts : List Thread) : Nat := total (threadManager.parkedIn .monitor) ts

structure PoolAccount (c : Config Impl Thread Event) : Prop where
  counts : CountsActivated c
  inTurn : total (onCall resizes) c.threads ≤ 1
  accepted : total (onWorker refused) c.threads = 0
  growing : 0 < arriving c.threads → 0 < total (onCall grows) c.threads
  limit : c.shared.workerCount + arriving c.threads ≤ c.shared.workerMaxCount ∨
    0 < total (onCall lowered) c.threads
  idle : c.shared.idleCount = total (onWorker idle) c.threads
  calm : c.shared.state ≠ .starting
  noStart : total (onCall startWaits) c.threads = 0
  awake : 0 < parked c.threads → c.shared.workerCount ≤ c.shared.workerMaxCount
  delivered : c.shared.tasks ≠ [] → 0 < parked c.threads →
    parked c.threads < total (onWorker inLoop) c.threads

/-! ## Who is parked -/

/-- One for a call that is about to move the limit. -/
def prepares : Call → Nat
  | .addWorker _ | .removeWorker _ _ => 1
  | _ => 0

theorem taking_turns (ts : List Thread) : total (onCall prepares) ts + total (onCall grows) ts +
    total (onCall lowered) ts ≤ total (onCall resizes) ts := by
  rw [← total_add, ← total_add]
  apply total_mono
  intro t _
  obtain ⟨_, _, call, _⟩ := t
  cases call <;> simp [onCall, prepares, grows, lowered, resizes]

theorem parkedIn_of_parked {t : Thread} (parked : t.worker = .parked) :
    threadManager.parkedIn .monitor t = 1 := by
  simp [Program.parkedIn, threadManager, Thread.waitsOn, parked, Worker.waitsOn]

theorem idle_of_waitsOn {w : Worker} (waits : w.waitsOn = some .monitor) : idle w = 1 := by
  cases w with
  | parked => rfl
  | _ => cases waits

theorem startWaits_of_waitsOn {d : Call} (waits : d.waitsOn = some .monitor) :
    startWaits d = 1 := by
  cases d with
  | startParked => rfl
  | _ => cases waits

theorem parked_le (ts : List Thread) :
    parked ts ≤ total (onWorker idle) ts + total (onCall startWaits) ts := by
  rw [← total_add]
  apply total_mono
  intro t _
  show (if t.waitsOn = some .monitor then 1 else 0) ≤ idle t.worker + startWaits t.call
  split
  · rename_i waits
    rcases Option.or_eq_some_iff.mp waits with worker | ⟨-, call⟩
    · rw [idle_of_waitsOn worker]
      exact Nat.le_add_right _ _
    · rw [startWaits_of_waitsOn call]
      exact Nat.le_add_left _ _
  · exact Nat.zero_le _

theorem inLoop_eq (w : Worker) : inLoop w = 0 ∨ inLoop w = 1 := by
  cases w <;> first | exact .inl rfl | exact .inr rfl

theorem idle_le_inLoop (ts : List Thread) :
    total (onWorker idle) ts ≤ total (onWorker inLoop) ts := by
  apply total_mono
  intro t _
  obtain ⟨_, worker, _, _⟩ := t
  cases worker <;> simp [onWorker, idle, inLoop]

section Parked

variable {c : Config Impl Thread Event} {i : Nat} {cs : List Nat} {t : Thread} {ts : List Thread}

theorem parked_worker {w : Worker} {a : WorkerAct} {o : Effect Worker}
    (step : WorkerStep c.shared t.ref w a o)
    (delivered : threadManager.deliver o.signals cs c.threads = some ts)
    (here : c.threads[i]? = some t) (idle : t.call = .none) (place : t.worker = w) :
    parked (ts.set i (t.withWorker idle o.self)) =
      parked c.threads + if o.self = .parked then 1 else 0 := by
  have moved := parkedIn_worker .monitor step delivered here idle place
  have self : o.self.waitsOn = some .monitor ↔ o.self = .parked := by
    cases o.self <;> simp [Worker.waitsOn]
  simp only [step.signals, self] at moved
  exact moved

theorem parked_call {id : Nat} {d : Call} {a : CallAct} {o : Effect Call}
    (step : CallStep c.shared id d a o)
    (delivered : threadManager.deliver o.signals cs c.threads = some ts)
    (here : c.threads[i]? = some t) (makesCalls : t.worker.makesCalls = true) (place : t.call = d)
    (before : startWaits d = 0) (after : startWaits o.self = 0) :
    parked (ts.set i (t.withCall makesCalls o.self) ++ o.spawned) =
      Program.afterSignals .monitor o.signals (parked c.threads) := by
  have elsewhere {d : Call} (calm : startWaits d = 0) : d.waitsOn ≠ some .monitor := by
    intro waits
    rw [startWaits_of_waitsOn waits] at calm
    cases calm
  have moved := parkedIn_call .monitor step delivered here makesCalls place (elsewhere before)
  rwa [if_neg (elsewhere after), Nat.add_zero] at moved

end Parked

/-! ## One step -/

section Step

variable {c c' : Config Impl Thread Event} {mv : Move Act}

/-- No limit is both raised and lowered at a time. -/
theorem PoolAccount.limit_of_growing (h : PoolAccount c)
    (growing : 0 < total (onCall grows) c.threads) :
    c.shared.workerCount + arriving c.threads ≤ c.shared.workerMaxCount := by
  have turns := taking_turns c.threads
  have one := h.inTurn
  rcases h.limit with limit | lowering <;> omega

/-- A worker that runs its entry block is accepted. -/
theorem PoolAccount.room (h : PoolAccount c) {i : Nat} {t : Thread} (here : c.threads[i]? = some t)
    (entry : t.worker = .entry) : c.shared.workerCount < c.shared.workerMaxCount := by
  have present := le_total_of_getElem? (onWorker entering) here
  have one : onWorker entering t = 1 := by simp [onWorker, entry, entering]
  have some : 0 < arriving c.threads := by
    unfold arriving
    omega
  have limit := h.limit_of_growing (h.growing some)
  omega

theorem poolAccount_spurious (h : PoolAccount c) {i : Nat} {t : Thread}
    (here : c.threads[i]? = some t) (waits : t.waitsOn ≠ none) :
    PoolAccount { c with threads := c.threads.set i t.wake } := by
  have worker (f : Worker → Nat) [Steady f] := total_worker_spurious f here waits
  have call (f : Call → Nat) [SteadyCall f] := total_call_spurious f here waits
  have fewer : parked (c.threads.set i t.wake) ≤ parked c.threads :=
    threadManager.total_parkedIn_wake_le .monitor here
  obtain ⟨counts, inTurn, accepted, growing, limit, idle, calm, noStart, awake, delivered⟩ := h
  unfold CountsActivated arriving at *
  refine ⟨?_, ?_, ?_, ?_, ?_, ?_, calm, ?_,
    fun some => awake (Nat.lt_of_lt_of_le some fewer), fun tasks some => ?_⟩
  all_goals first
    | simpa only [CountsActivated, arriving, worker, call] using ‹_›
    | skip
  have before := delivered tasks (Nat.lt_of_lt_of_le some fewer)
  dsimp only
  rw [worker]
  omega

/-- While a limit is being lowered, no thread is on its way into the pool. -/
theorem PoolAccount.noArrivals (h : PoolAccount c)
    (lowering : 0 < total (onCall lowered) c.threads) : arriving c.threads = 0 := by
  have turns := taking_turns c.threads
  have one := h.inTurn
  by_contra some
  have grown := h.growing (Nat.pos_of_ne_zero some)
  omega

section Worker

variable {i : Nat} {cs : List Nat} {t : Thread} {ts : List Thread} {w : Worker} {a : WorkerAct}
  {o : Effect Worker}

/-- A worker that parks has found itself active and the queue empty. -/
theorem PoolAccount.sleepers_worker (h : PoolAccount c) (here : c.threads[i]? = some t)
    (idle : t.call = .none) (place : t.worker = w) (step : WorkerStep c.shared t.ref w a o)
    (delivered : threadManager.deliver o.signals cs c.threads = some ts) :
    (0 < parked (ts.set i (t.withWorker idle o.self)) →
        o.shared.workerCount ≤ o.shared.workerMaxCount) ∧
      (o.shared.tasks ≠ [] → 0 < parked (ts.set i (t.withWorker idle o.self)) →
        parked (ts.set i (t.withWorker idle o.self)) <
          total (onWorker inLoop) (ts.set i (t.withWorker idle o.self))) := by
  have parks := parked_worker step delivered here idle place
  have looping := total_worker inLoop (threadManager.deliver_woken delivered) here idle o.self
  have room := step.room (exit_positive h.accepted h.counts here (place ▸ step))
  have most := step.workerMaxCount
  have present (f : Worker → Nat) : f w ≤ total (onWorker f) c.threads :=
    place ▸ le_total_of_getElem? (onWorker f) here
  rw [place] at looping
  constructor
  · intro some
    rcases h.limit with limit | lowering
    · have own := present entering
      unfold arriving at limit
      omega
    · have none := h.noArrivals lowering
      have own := present entering
      unfold arriving at none
      by_cases self : o.self = .parked
      · have active := (step.of_parked self).1
        omega
      · have active := h.awake (by simpa [parks, self] using some)
        omega
  · intro tasks some
    by_cases self : o.self = .parked
    · exact absurd (step.of_parked self).2 tasks
    · rw [parks, if_neg self] at some ⊢
      have queue : c.shared.tasks ≠ [] := fun none => tasks (List.suffix_nil.mp (none ▸ step.tasks))
      have ahead := h.delivered queue some
      have limit := h.awake some
      rcases step.inLoop with stays | inactive
      · omega
      · rw [Impl.not_isActive_iff] at inactive
        omega

theorem poolAccount_worker (h : PoolAccount c) (here : c.threads[i]? = some t)
    (idle : t.call = .none) (place : t.worker = w) (step : WorkerStep c.shared t.ref w a o)
    (delivered : threadManager.deliver o.signals cs c.threads = some ts)
    (counts : CountsActivated ⟨o.shared, ts.set i (t.withWorker idle o.self),
      c.log ++ o.events.map (Prod.mk i)⟩) :
    PoolAccount ⟨o.shared, ts.set i (t.withWorker idle o.self),
      c.log ++ o.events.map (Prod.mk i)⟩ := by
  have woken := threadManager.deliver_woken delivered
  have call (f : Call → Nat) [SteadyCall f] := total_worker_call f woken here idle o.self
  have worker (f : Worker → Nat) [Steady f] := total_worker f woken here idle o.self
  have present (f : Worker → Nat) : f w ≤ total (onWorker f) c.threads :=
    place ▸ le_total_of_getElem? (onWorker f) here
  have entered := worker entering
  have counted := worker Manager.idle
  have accepted := worker refused
  rw [place] at entered counted accepted
  have room := step.room (exit_positive h.accepted h.counts here (place ▸ step))
  have most := step.workerMaxCount
  have own := present entering
  have none := step.entering
  obtain ⟨within, ahead⟩ := h.sleepers_worker here idle place step delivered
  refine ⟨counts, ?_, ?_, ?_, ?_, ?_, ?_, ?_, within, ahead⟩
  · rw [call resizes]
    exact h.inTurn
  · have nobody := h.accepted
    rcases step.not_refused with fine | ⟨-, entry, noRoom⟩
    · dsimp only
      omega
    · have some := h.room here (place.trans entry)
      omega
  · unfold arriving
    dsimp only
    rw [call toStart, call grows]
    intro some
    apply h.growing
    unfold arriving
    omega
  · have before := h.limit
    unfold arriving at before ⊢
    dsimp only
    rw [call toStart, call lowered]
    rcases before with before | lowering
    · left
      omega
    · exact .inr lowering
  · have now := step.idle (by rw [h.idle]; exact present Manager.idle)
    have was := h.idle
    dsimp only
    omega
  · have same : o.shared.state = c.shared.state := step.state
    dsimp only
    rw [same]
    exact h.calm
  · rw [call startWaits]
    exact h.noStart

end Worker

section Call

variable {i : Nat} {cs : List Nat} {t : Thread} {ts : List Thread} {d : Call} {a : CallAct}
  {o : Effect Call}

/-- A thread is on its way into the pool only while a call raises the limit. -/
theorem PoolAccount.growing_call (h : PoolAccount c) (here : c.threads[i]? = some t)
    (makesCalls : t.worker.makesCalls = true) (place : t.call = d)
    (step : CallStep c.shared t.ref.id d a o) (woken : threadManager.Woken c.threads ts) :
    0 < arriving (ts.set i (t.withCall makesCalls o.self) ++ o.spawned) →
      0 < total (onCall grows) (ts.set i (t.withCall makesCalls o.self) ++ o.spawned) := by
  have present (f : Call → Nat) : f d ≤ total (onCall f) c.threads :=
    place ▸ le_total_of_getElem? (onCall f) here
  have entered := total_call_worker entering woken here makesCalls o.self o.spawned
  have starting := place ▸ step.moves_calls toStart rfl woken here makesCalls
  have growing := place ▸ step.moves_calls grows rfl woken here makesCalls
  have turns := taking_turns c.threads
  have one := h.inTurn
  have grown := h.growing
  have ownGrow := present grows
  have ownPrepare := present prepares
  have fits := h.limit_of_growing
  unfold arriving at *
  cases step.pool with
  | steady _ spawned same grew =>
    rw [total_none spawned, Nat.add_zero] at entered
    intro some
    rcases grew with grew | complete
    · have was := grown (by omega)
      omega
    · by_cases shrinks : grows d ≤ grows o.self
      · have was := grown (by omega)
        omega
      · have fit := fits (by omega)
        omega
  | pushes _ spawned before after =>
    rw [total_none spawned, Nat.add_zero] at entered
    intro some
    have was := grown (by omega)
    omega
  | raises objects place block =>
    subst place block
    cases objects with
    | nil =>
      simp only [raiseBlock, Call.startLoop, toStart, grows, prepares, total_nil] at *
      omega
    | cons object objects =>
      simp only [raiseBlock, Call.startLoop, toStart, grows, prepares, total_nil] at *
      omega
  | starts object objects created place block =>
    subst place block
    cases created <;>
      simp only [startThreadBlock, toStart, grows, total_nil, total_cons, onWorker,
        entering] at * <;>
      omega
  | lowers value caller place _ _ after spawned =>
    have ready : prepares d = 1 := by rw [place]; rfl
    rw [total_none spawned, Nat.add_zero] at entered
    intro some
    have was := grown (by omega)
    omega

theorem PoolAccount.limit_call (h : PoolAccount c) (here : c.threads[i]? = some t)
    (makesCalls : t.worker.makesCalls = true) (place : t.call = d)
    (step : CallStep c.shared t.ref.id d a o) (woken : threadManager.Woken c.threads ts) :
    o.shared.workerCount + arriving (ts.set i (t.withCall makesCalls o.self) ++ o.spawned) ≤
        o.shared.workerMaxCount ∨
      0 < total (onCall lowered) (ts.set i (t.withCall makesCalls o.self) ++ o.spawned) := by
  have entered := total_call_worker entering woken here makesCalls o.self o.spawned
  have starting := place ▸ step.moves_calls toStart rfl woken here makesCalls
  have lowering := place ▸ step.moves_calls lowered rfl woken here makesCalls
  have turns := taking_turns c.threads
  have one := h.inTurn
  have limit := h.limit
  have grown := h.growing
  have counted := step.counts
  unfold arriving at *
  cases step.pool with
  | steady most spawned same _ lower =>
    rw [total_none spawned, Nat.add_zero] at entered
    rcases limit with limit | lowered
    · omega
    · rcases lower with lower | ⟨zero, complete⟩
      · omega
      · by_cases none : arriving c.threads = 0
        · unfold arriving at none
          omega
        · have was := grown (Nat.pos_of_ne_zero none)
          omega
  | pushes most spawned before after =>
    rw [total_none spawned, Nat.add_zero] at entered
    omega
  | raises objects place block =>
    subst place block
    cases objects with
    | nil =>
      simp only [raiseBlock, Call.startLoop, toStart, lowered, total_nil] at *
      dsimp only [List.length_nil]
      omega
    | cons object objects =>
      simp only [raiseBlock, Call.startLoop, toStart, lowered, total_nil] at *
      omega
  | starts object objects created place block =>
    subst place block
    cases created <;>
      simp only [startThreadBlock, toStart, lowered, total_nil, total_cons, onWorker, entering,
        List.length_cons] at * <;>
      omega
  | lowers value caller place _ _ after =>
    have still : lowered d = 0 := by rw [place]; rfl
    omega

/-- A call leaves workers parked only in a pool within its limit, and tasks with an awake
worker. -/
theorem PoolAccount.sleepers_call (h : PoolAccount c) {n : Nat}
    (step : CallStep c.shared t.ref.id d a o)
    (sleepers : n = Program.afterSignals .monitor o.signals (parked c.threads)) :
    (0 < n → o.shared.workerCount ≤ o.shared.workerMaxCount) ∧
      (o.shared.tasks ≠ [] → 0 < n → n < total (onWorker inLoop) c.threads) := by
  have asleep := parked_le c.threads
  have noStart := h.noStart
  have counted := step.counts
  have before := h.idle
  have within := idle_le_inLoop c.threads
  subst sleepers
  cases step.pool with
  | steady most _ _ _ _ suffix signals =>
    have fewer := signals (parked c.threads)
    refine ⟨fun some => ?_, fun tasks some => ?_⟩
    · have was := h.awake (by omega)
      omega
    · have queue : c.shared.tasks ≠ [] := fun none => tasks (List.suffix_nil.mp (none ▸ suffix))
      have ahead := h.delivered queue (by omega)
      omega
  | pushes most _ _ _ signals =>
    rw [signals, afterSignals_push (by omega)]
    refine ⟨fun some => ?_, fun _ some => ?_⟩
    · have was := h.awake (by omega)
      omega
    · omega
  | raises objects place block =>
    subst place block
    refine ⟨fun some => ?_, h.delivered⟩
    have was := h.awake some
    simp only [raiseBlock]
    omega
  | starts object objects created place block =>
    subst place block
    cases created <;> exact ⟨h.awake, h.delivered⟩
  | lowers value caller _ _ _ _ _ signals =>
    rw [signals, afterSignals_lower (by omega)]
    exact ⟨fun some => absurd some (Nat.lt_irrefl 0), fun _ some => absurd some (Nat.lt_irrefl 0)⟩

theorem poolAccount_call (h : PoolAccount c) (here : c.threads[i]? = some t)
    (makesCalls : t.worker.makesCalls = true) (place : t.call = d)
    (step : CallStep c.shared t.ref.id d a o)
    (delivered : threadManager.deliver o.signals cs c.threads = some ts)
    (turn : a.beginsResize = true → total (onCall resizes) c.threads = 0)
    (counts : CountsActivated ⟨o.shared, ts.set i (t.withCall makesCalls o.self) ++ o.spawned,
      c.log ++ o.events.map (Prod.mk i)⟩) :
    PoolAccount ⟨o.shared, ts.set i (t.withCall makesCalls o.self) ++ o.spawned,
      c.log ++ o.events.map (Prod.mk i)⟩ := by
  have woken := threadManager.deliver_woken delivered
  have worker (f : Worker → Nat) [Steady f] (zero : f .entry = 0) :=
    step.keeps_workers f zero woken here makesCalls
  have call (f : Call → Nat) [SteadyCall f] (zero : f .none = 0) :
      total (onCall f) (ts.set i (t.withCall makesCalls o.self) ++ o.spawned) + f d =
        total (onCall f) c.threads + f o.self :=
    place ▸ step.moves_calls f zero woken here makesCalls
  have present (f : Call → Nat) : f d ≤ total (onCall f) c.threads :=
    place ▸ le_total_of_getElem? (onCall f) here
  have never := step.neverStarting h.calm
  have noStart := h.noStart
  have ownWait := present startWaits
  have sleepers := parked_call step delivered here makesCalls place (by omega) never.2
  obtain ⟨awake, ahead⟩ := h.sleepers_call step sleepers
  refine ⟨counts, ?_, ?_, h.growing_call here makesCalls place step woken,
    h.limit_call here makesCalls place step woken, ?_, never.1, ?_, awake, fun tasks some => ?_⟩
  · have sizing := call resizes rfl
    have one := h.inTurn
    dsimp only
    rcases step.resizes with fewer | ⟨none, new, begins⟩
    · omega
    · have alone := turn begins
      omega
  · exact (worker refused rfl).trans h.accepted
  · dsimp only
    rw [worker Manager.idle rfl, step.counts.2]
    exact h.idle
  · have waiting := call startWaits rfl
    dsimp only
    omega
  · dsimp only at tasks some ⊢
    rw [worker inLoop rfl]
    exact ahead tasks some

end Call

theorem poolAccount_step (h : PoolAccount c) (ok : InTurn c mv) (change : Change c mv c') :
    PoolAccount c' := by
  have counts := countsActivated_step h.counts (exitsActivated_of_accepted h.accepted mv) change
  cases change with
  | spurious here waits => exact poolAccount_spurious h here waits
  | worker _ here idle place step delivered =>
    exact poolAccount_worker h here idle place step delivered counts
  | call _ here makesCalls place step delivered =>
    exact poolAccount_call h here makesCalls place step delivered ok counts

end Step

theorem poolAccount_fresh (clients : List Nat) : PoolAccount (fresh clients) := by
  have worker (f : Worker → Nat) (zero : f .absent = 0) :
      total (onWorker f) (fresh clients).threads = 0 := total_fresh clients fun _ => zero
  have call (f : Call → Nat) (zero : f .none = 0) :
      total (onCall f) (fresh clients).threads = 0 := total_fresh clients fun _ => zero
  have none : parked (fresh clients).threads = 0 := total_fresh clients fun _ => rfl
  have nobody : arriving (fresh clients).threads = 0 := by
    rw [arriving, worker entering rfl, call toStart rfl]
  refine ⟨countsActivated_fresh clients, ?_, worker refused rfl, ?_, .inl ?_, ?_, nofun,
    call startWaits rfl, ?_, ?_⟩
  · rw [call resizes rfl]
    exact Nat.zero_le 1
  · omega
  · rw [nobody]
    exact Nat.le_refl 0
  · rw [worker idle rfl]
    rfl
  · omega
  · intro tasks
    exact absurd rfl tasks

theorem poolAccount_of_run {clients : List Nat} {c : Config Impl Thread Event}
    (run : threadManager.Run InTurn (fresh clients) c) : PoolAccount c :=
  run.invariant (poolAccount_fresh clients) fun h ok step =>
    poolAccount_step h ok (change_of_step step)

/-- While the calls that change the size of the pool take turns, it never happens that
tasks are queued and every worker in the loop is parked without a notification. -/
theorem no_lost_wakeup (clients : List Nat) (c : Config Impl Thread Event)
    (run : threadManager.Run InTurn (fresh clients) c) :
    ¬ (c.shared.tasks ≠ [] ∧ (∃ t ∈ c.threads, inLoop t.worker = 1) ∧
      ∀ t ∈ c.threads, inLoop t.worker = 1 → t.worker = .parked) := by
  have h := poolAccount_of_run run
  rintro ⟨queued, ⟨t, mem, looping⟩, allParked⟩
  have some : 0 < parked c.threads := by
    have one := le_total (threadManager.parkedIn .monitor) mem
    rw [parkedIn_of_parked (allParked t mem looping)] at one
    exact one
  have all : total (onWorker inLoop) c.threads ≤ parked c.threads := by
    apply total_mono
    intro t ht
    by_cases looping : inLoop t.worker = 1
    · rw [parkedIn_of_parked (allParked t ht looping)]
      exact Nat.le_of_eq looping
    · have zero : inLoop t.worker = 0 := (inLoop_eq t.worker).resolve_right looping
      exact Nat.le_trans (Nat.le_of_eq zero) (Nat.zero_le _)
  have ahead := h.delivered queued some
  omega

/-- Two workers; one of them parks and is notified by an `Add`. -/
def parkAndAdd : List (Move Act) :=
  [.run 0 (.call (.setThreadFactory true)) [], .run 0 (.call (.start (some (1, 0)))) [],
    .run 0 (.call .setPendingTaskCountMax) [], .run 0 (.call .testStopped) [],
    .run 0 (.call .lockStart) [], .run 0 (.call .newThreads) [], .run 0 (.call .raise) [],
    .run 0 (.call (.startThread (some 7))) [], .run 2 (.worker .enter) [],
    .run 2 (.worker .announce) [], .run 0 (.call .register) [], .run 0 (.call .awaitAdded) [],
    .run 1 (.call (.addWorker 1)) [], .run 1 (.call .newThreads) [], .run 1 (.call .raise) [],
    .run 1 (.call (.startThread (some 8))) [], .run 3 (.worker .enter) [],
    .run 2 (.worker (.iterate ⟨fun _ => 0, none⟩)) [],
    .run 0 (.call (.add ⟨10, 0, 0⟩ ⟨fun _ => 0, none⟩ 0)) [2]]

theorem no_lost_wakeup_parkAndAdd : ∃ c, threadManager.Run InTurn (fresh [1, 2]) c ∧
    c.shared.tasks ≠ [] ∧ (∃ t ∈ c.threads, inLoop t.worker = 1) ∧
    ¬ ∀ t ∈ c.threads, inLoop t.worker = 1 → t.worker = .parked := by
  obtain ⟨c, run, queued, looping⟩ := threadManager.exists_run InTurn (fresh [1, 2])
    (fun c => c.shared.tasks ≠ [] ∧ ∃ t ∈ c.threads, inLoop t.worker = 1) parkAndAdd (by decide)
  exact ⟨c, run, queued, looping, fun all => no_lost_wakeup [1, 2] c run ⟨queued, looping, all⟩⟩

end Threads.Manager
