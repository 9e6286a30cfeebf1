import Threads.Manager.Identity
import Threads.Manager.Returning

/-!
# The thread objects in `workers_`

`AddWorker` makes thread objects, enters them in `workers_` and starts them one by one;
`Worker::Run` ends by putting its own into `dead_workers_`, and the next `RemoveWorker`
erases those. An object whose `pthread_create` fails is on neither way out.
-/

namespace Threads.Manager

open Concurrency

/-- The object is made and not yet in `workers_`. -/
def unlisted (object : Nat) : Call → Nat
  | .addWorker objects => objects.count object
  | _ => 0

/-- The object is in `workers_` and has still to be started. -/
def unstarted (object : Nat) : Call → Nat
  | .startThreads objects | .register _ objects => objects.count object
  | _ => 0

instance (object : Nat) : SteadyCall (unlisted object) := ⟨fun c => by cases c <;> rfl⟩
instance (object : Nat) : SteadyCall (unstarted object) := ⟨fun c => by cases c <;> rfl⟩

/-- One if this thread is the live worker of the object. -/
def serves (object : Nat) (t : Thread) : Nat :=
  if t.worker.alive = true ∧ t.ref.object = object then 1 else 0

/-- What a thread does with an object in `workers_`: its call has still to start it, or it is the
worker that was started. -/
def uses (object : Nat) (t : Thread) : Nat := unstarted object t.call + serves object t

/-- The dead workers of the object that have not been collected. -/
def Impl.buried (s : Impl) (object : Nat) : Nat :=
  s.deadWorkers.countP fun dead => dead.object == object

/-- The threads, dead ones included, on whose account the object is in `workers_`. -/
def inUse (object : Nat) (c : Config Impl Thread Event) : Nat :=
  total (uses object) c.threads + c.shared.buried object

def toBeListed (object : Nat) (c : Config Impl Thread Event) : Nat :=
  total (onCall (unlisted object)) c.threads

/-- Every creation succeeds. -/
def CreatesAll (_ : Config Impl Thread Event) : Move Act → Prop
  | .run _ (.call a) _ => a.failsToStart = false
  | _ => True

instance (c : Config Impl Thread Event) : DecidablePred (CreatesAll c)
  | .spurious _ => isTrue trivial
  | .run _ (.worker _) _ => isTrue trivial
  | .run _ (.call a) _ => inferInstanceAs (Decidable (a.failsToStart = false))

/-! ## One step -/

theorem stable_uses (object : Nat) : threadManager.Stable (uses object) := by
  intro t _
  have call : unstarted object t.call.wake = unstarted object t.call := SteadyCall.wake _
  have alive : t.worker.wake.alive = t.worker.alive := by cases t.worker <;> rfl
  show unstarted object t.call.wake +
    (if t.worker.wake.alive = true ∧ t.ref.object = object then 1 else 0) = uses object t
  rw [call, alive]
  rfl

theorem count_collectDead (s : Impl) (object : Nat) : (collectDead s).workers.count object =
    if s.buried object = 0 then s.workers.count object else 0 := by
  have kept : (!s.deadWorkers.any fun dead => dead.object == object) = true ↔
      s.buried object = 0 := by
    rw [Bool.not_eq_true', ← Bool.not_eq_true, List.any_eq_true, Impl.buried, List.countP_eq_zero]
    simp only [not_exists, not_and]
  by_cases none : s.buried object = 0
  · rw [if_pos none]
    exact List.count_filter (kept.mpr none)
  · rw [if_neg none]
    apply List.count_eq_zero.mpr
    intro mem
    exact none (kept.mp (List.mem_filter.mp mem).2)

theorem count_new (first value object : Nat) : (List.range' first value).count object =
    if first ≤ object ∧ object < first + value then 1 else 0 := by
  rw [(List.nodup_range' (s := first) (n := value)).count]
  exact if_congr List.mem_range'_1 rfl rfl

/-- The loop over the new threads starts the same objects as before. -/
theorem unstarted_startLoop (object : Nat) (objects : List Nat) :
    unstarted object (.startLoop objects) = objects.count object ∧
      unlisted object (.startLoop objects) = 0 := by
  cases objects with
  | nil => exact ⟨rfl, rfl⟩
  | cons => exact ⟨rfl, rfl⟩

section Block

variable {s : Impl} {ref : ThreadRef} {id : Nat}

/-- `Worker::Run` enters nothing in `workers_`; it ends by burying its own object. -/
theorem WorkerStep.lists {w : Worker} {a : WorkerAct} {o : Effect Worker}
    (h : WorkerStep s ref w a o) :
    o.shared.workers = s.workers ∧ o.shared.threadAllocs = s.threadAllocs := by
  have working (s : Impl) (env : Surroundings) : (workBlock s env).shared.workers = s.workers ∧
      (workBlock s env).shared.threadAllocs = s.threadAllocs := by
    obtain ⟨_, _, _, -, eq⟩ := workBlock_shared s env
    rw [eq]
    exact ⟨rfl, rfl⟩
  cases h with
  | works => exact working s _
  | wakesAndWorks => exact working { s with idleCount := decrement s.idleCount } _
  | _ => exact ⟨rfl, rfl⟩

/-- What a block of a call does with thread objects. -/
inductive ListMove (s : Impl) (d : Call) (a : CallAct) (o : Effect Call) : Prop
  | aside (workers : o.shared.workers = s.workers) (dead : o.shared.deadWorkers = s.deadWorkers)
      (allocs : o.shared.threadAllocs = s.threadAllocs)
      (listed : ∀ n, unlisted n o.self = unlisted n d)
      (used : ∀ n, unstarted n o.self + total (uses n) o.spawned = unstarted n d)
  | makes (value : Nat) (place : d = .newThreads value) (block : o = newThreadsBlock s value)
  | lists (objects : List Nat) (place : d = .addWorker objects) (block : o = raiseBlock s objects)
  | loses (object : Nat) (objects : List Nat) (place : d = .startThreads (object :: objects))
      (act : a = .startThread none) (block : o = startThreadBlock s object objects none)
  | collects (shared : o.shared = collectDead s) (spawned : o.spawned = [])
      (listed : ∀ n, unlisted n d = 0 ∧ unlisted n o.self = 0)
      (used : ∀ n, unstarted n d = 0 ∧ unstarted n o.self = 0)

theorem CallStep.listMove {d : Call} {a : CallAct} {o : Effect Call} (h : CallStep s id d a o) :
    ListMove s d a o := by
  cases h with
  | @started workers =>
    cases workers <;> exact .aside rfl rfl rfl (fun _ => rfl) fun _ => rfl
  | @startAgain workers | @resumeStart workers =>
    unfold startWaitBlock
    split <;> cases workers <;> exact .aside rfl rfl rfl (fun _ => rfl) fun _ => rfl
  | newThreads => exact .makes _ rfl rfl
  | raise => exact .lists _ rfl rfl
  | @startThread object objects created =>
    cases created with
    | none => exact .loses _ _ rfl rfl rfl
    | some new =>
      refine .aside rfl rfl rfl (fun _ => rfl) fun n => ?_
      simp [startThreadBlock, unstarted, uses, serves, Worker.alive, List.count_cons]
  | @register thread objects =>
    refine .aside rfl rfl rfl (fun n => ?_) fun n => ?_
    · exact (unstarted_startLoop n objects).2
    · exact (unstarted_startLoop n objects).1
  | @removed caller complete =>
    cases caller <;> exact .collects rfl rfl (fun _ => ⟨rfl, rfl⟩) fun _ => ⟨rfl, rfl⟩
  | remove =>
    obtain ⟨e, eq⟩ := removeBlock_eq s
    rw [eq]
    exact .aside rfl rfl rfl (fun _ => rfl) fun _ => rfl
  | removeNextPending =>
    obtain ⟨tasks, es, -, eq⟩ := removeNextPendingBlock_eq s
    rw [eq]
    exact .aside rfl rfl rfl (fun _ => rfl) fun _ => rfl
  | _ => exact .aside rfl rfl rfl (fun _ => rfl) fun _ => rfl

end Block

/-- What a step does to one object: how often it is made, in `workers_`, and in use. -/
inductive RosterChange (object : Nat) (c : Config Impl Thread Event) (mv : Move Act)
    (c' : Config Impl Thread Event) : Prop
  | aside (allocs : c.shared.threadAllocs ≤ c'.shared.threadAllocs)
      (made : toBeListed object c' = toBeListed object c)
      (listed : c'.shared.workers.count object = c.shared.workers.count object)
      (used : inUse object c' = inUse object c)
  | makes (fresh : c.shared.threadAllocs ≤ object) (below : object < c'.shared.threadAllocs)
      (made : toBeListed object c' = toBeListed object c + 1)
      (listed : c'.shared.workers.count object = c.shared.workers.count object)
      (used : inUse object c' = inUse object c)
  | lists (n : Nat) (allocs : c'.shared.threadAllocs = c.shared.threadAllocs)
      (made : toBeListed object c' + n = toBeListed object c)
      (listed : c'.shared.workers.count object = c.shared.workers.count object + n)
      (used : inUse object c' = inUse object c + n)
  | loses (fails : ¬ CreatesAll c mv) (allocs : c'.shared.threadAllocs = c.shared.threadAllocs)
      (made : toBeListed object c' = toBeListed object c)
      (listed : c'.shared.workers.count object = c.shared.workers.count object)
      (used : inUse object c' + 1 = inUse object c)
  | erases (n : Nat) (some : 0 < n) (allocs : c'.shared.threadAllocs = c.shared.threadAllocs)
      (made : toBeListed object c' = toBeListed object c)
      (listed : c'.shared.workers.count object = 0)
      (used : inUse object c' + n = inUse object c)

section Step

variable {c c' : Config Impl Thread Event} {mv : Move Act}

section Block

variable {d : Call} {a : CallAct} {o : Effect Call} {i : Nat} {cs : List Nat} {object : Nat}
  {ts : List Thread} {log : List Entry}

/-- New objects get the identities that follow those in use. -/
theorem rosterChange_makes {value : Nat}
    (made : total (onCall (unlisted object)) ts =
      toBeListed object c + (List.range' c.shared.threadAllocs value).count object)
    (used : total (uses object) ts = total (uses object) c.threads) :
    RosterChange object c mv ⟨(newThreadsBlock c.shared value).shared, ts, log⟩ := by
  have same : total (uses object) ts + c.shared.buried object = inUse object c :=
    congrArg (· + c.shared.buried object) used
  rw [count_new] at made
  split at made
  · rename_i new
    exact .makes new.1 new.2 made rfl same
  · exact .aside (Nat.le_add_right _ _) made rfl same

theorem rosterChange_lists {objects : List Nat}
    (made : total (onCall (unlisted object)) ts + objects.count object = toBeListed object c)
    (used : total (uses object) ts = total (uses object) c.threads + objects.count object) :
    RosterChange object c mv ⟨(raiseBlock c.shared objects).shared, ts, log⟩ := by
  refine .lists (objects.count object) rfl made List.count_append ?_
  have more := congrArg (· + c.shared.buried object) used
  exact more.trans (Nat.add_right_comm _ _ _)

/-- A `Start` without a pthread takes a use away from its object. -/
theorem rosterChange_loses (lost : Nat) (fails : ¬ CreatesAll c mv)
    (made : total (onCall (unlisted object)) ts = toBeListed object c)
    (used : total (uses object) ts + (if (lost == object) = true then 1 else 0) =
      total (uses object) c.threads) :
    RosterChange object c mv ⟨c.shared, ts, log⟩ := by
  by_cases same : (lost == object) = true
  · rw [if_pos same] at used
    refine .loses fails rfl made rfl ?_
    unfold inUse
    dsimp only
    omega
  · rw [if_neg same] at used
    exact .aside (Nat.le_refl _) made rfl (congrArg (· + c.shared.buried object) used)

theorem rosterChange_collects (made : total (onCall (unlisted object)) ts = toBeListed object c)
    (used : total (uses object) ts = total (uses object) c.threads) :
    RosterChange object c mv ⟨collectDead c.shared, ts, log⟩ := by
  have listed := count_collectDead c.shared object
  have balance : inUse object ⟨collectDead c.shared, ts, log⟩ + c.shared.buried object =
    inUse object c := congrArg (· + c.shared.buried object) used
  by_cases none : c.shared.buried object = 0
  · rw [if_pos none] at listed
    rw [none] at balance
    exact .aside (Nat.le_refl _) made listed balance
  · rw [if_neg none] at listed
    exact .erases _ (Nat.pos_of_ne_zero none) rfl made listed balance

theorem rosterChange_of_move (move : ListMove c.shared d a o)
    (made : total (onCall (unlisted object)) ts + unlisted object d =
      toBeListed object c + unlisted object o.self)
    (used : total (uses object) ts + unstarted object d =
      total (uses object) c.threads + (unstarted object o.self + total (uses object) o.spawned)) :
    RosterChange object c (.run i (.call a) cs) ⟨o.shared, ts, log⟩ := by
  cases move with
  | aside workers dead allocs listed kept =>
    rw [listed] at made
    rw [kept] at used
    refine .aside (Nat.le_of_eq allocs.symm) (Nat.add_right_cancel made) (congrArg _ workers) ?_
    unfold inUse Impl.buried
    dsimp only
    rw [dead, Nat.add_right_cancel used]
  | makes value place block =>
    subst place block
    exact rosterChange_makes made used
  | lists objects place block =>
    subst place block
    obtain ⟨start, listed⟩ := unstarted_startLoop object objects
    refine rosterChange_lists (made.trans ?_) (used.trans ?_)
    · exact congrArg (toBeListed object c + ·) listed
    · exact congrArg (total (uses object) c.threads + ·) start
  | loses lost objects place act block =>
    subst place act block
    refine rosterChange_loses lost nofun made ?_
    have used : total (uses object) ts + (lost :: objects).count object =
      total (uses object) c.threads + objects.count object := used
    rw [List.count_cons] at used
    omega
  | collects collected spawned listed kept =>
    rw [(listed object).1, (listed object).2] at made
    rw [(kept object).1, (kept object).2, spawned] at used
    rw [collected]
    exact rosterChange_collects made used

end Block

theorem rosterChange_of_change (change : Change c mv c') (object : Nat) :
    RosterChange object c mv c' := by
  cases change with
  | @spurious i t here waits =>
    refine .aside (Nat.le_refl _) ?_ rfl ?_
    · exact total_call_spurious (unlisted object) here waits
    · have same := threadManager.total_spurious (stable_uses object) here waits
      exact congrArg (· + c.shared.buried object) same
  | @worker i a cs t w o ts alive here idle place step delivered =>
    subst place
    have woken := threadManager.deliver_woken delivered
    obtain ⟨workers, allocs⟩ := step.lists
    have made : toBeListed object ⟨o.shared, ts.set i (t.withWorker idle o.self),
        c.log ++ o.events.map (Prod.mk i)⟩ = toBeListed object c :=
      total_worker_call (unlisted object) woken here idle o.self
    have moved := threadManager.total_run (stable_uses object) woken here
      (t.withWorker idle o.self) []
    rw [List.append_nil, total_nil] at moved
    apply RosterChange.aside (Nat.le_of_eq allocs.symm) made (congrArg _ workers)
    unfold inUse
    dsimp only
    obtain ⟨-, ⟨before, after, dead⟩ | ⟨before, after, dead⟩⟩ := step.identity
    · have same : uses object (t.withWorker idle o.self) = uses object t := by
        simp [uses, serves, Thread.withWorker, before, after]
      have buried : o.shared.buried object = c.shared.buried object := by
        unfold Impl.buried
        rw [dead]
      omega
    · have balance : uses object t = uses object (t.withWorker idle o.self) +
          if t.ref.object = object then 1 else 0 := by
        simp [uses, serves, Thread.withWorker, before, after]
      have buried : o.shared.buried object = c.shared.buried object +
          if t.ref.object = object then 1 else 0 := by
        simp [Impl.buried, dead, List.countP_append, List.countP_cons]
      omega
  | @call i a cs t d o ts alive here makesCalls place step delivered =>
    subst place
    have woken := threadManager.deliver_woken delivered
    have made := step.moves_calls (unlisted object) rfl woken here makesCalls
    have moved := threadManager.total_run (stable_uses object) woken here
      (t.withCall makesCalls o.self) o.spawned
    refine rosterChange_of_move step.listMove made ?_
    have before : uses object t = unstarted object t.call + serves object t := rfl
    have after : uses object (t.withCall makesCalls o.self) =
      unstarted object o.self + serves object t := rfl
    omega

/-! ## Every run -/

/-- The account of the thread objects; `complete` says that every creation has succeeded. -/
structure Roster (complete : Prop) (c : Config Impl Thread Event) : Prop where
  fresh : ∀ object, c.shared.threadAllocs ≤ object →
    toBeListed object c + c.shared.workers.count object = 0
  once : ∀ object, toBeListed object c + c.shared.workers.count object ≤ 1
  used : ∀ object, inUse object c ≤ c.shared.workers.count object
  all : complete → ∀ object, inUse object c = c.shared.workers.count object

theorem roster_fresh (complete : Prop) (clients : List Nat) : Roster complete (fresh clients) := by
  have made (object : Nat) : toBeListed object (fresh clients) = 0 :=
    total_fresh clients fun _ => rfl
  have used (object : Nat) : inUse object (fresh clients) = 0 :=
    congrArg (· + 0) (total_fresh clients fun _ => rfl)
  constructor
  · intro object _
    rw [made]
    rfl
  · intro object
    rw [made]
    exact Nat.zero_le 1
  · intro object
    rw [used]
    exact Nat.zero_le _
  · intro _ object
    rw [used]
    rfl

theorem roster_step {complete : Prop} (h : Roster complete c) (ok : complete → CreatesAll c mv)
    (change : Change c mv c') : Roster complete c' := by
  have moved := rosterChange_of_change change
  constructor
  · intro object new
    have fresh := h.fresh object
    cases moved object with
    | aside | makes | lists | loses | erases => omega
  · intro object
    have fresh := h.fresh object
    have once := h.once object
    cases moved object with
    | aside | makes | lists | loses | erases => omega
  · intro object
    have once := h.once object
    have used := h.used object
    cases moved object with
    | aside | makes | lists | loses | erases => omega
  · intro all object
    have once := h.once object
    have exact := h.all all object
    cases moved object with
    | loses fails => exact absurd (ok all) fails
    | aside | makes | lists | erases => omega

/-- The object is in `workers_` for nobody. -/
structure Abandoned (object : Nat) (c : Config Impl Thread Event) : Prop where
  listed : object ∈ c.shared.workers
  unused : inUse object c = 0

theorem abandoned_step {object : Nat} (roster : Roster False c) (h : Abandoned object c)
    (change : Change c mv c') : Abandoned object c' := by
  obtain ⟨listed, unused⟩ := h
  have some := List.count_pos_iff.mpr listed
  have fresh := roster.fresh object
  have once := roster.once object
  suffices 0 < c'.shared.workers.count object ∧ inUse object c' = 0 from
    ⟨List.count_pos_iff.mp this.1, this.2⟩
  cases rosterChange_of_change change object with
  | aside | makes | lists | loses | erases => omega

/-- A `Start` whose `pthread_create` fails abandons its object. -/
theorem abandoned_of_failure (roster : Roster False c) {i : Nat} {cs : List Nat}
    (fails : threadManager.Step c (.run i (.call (.startThread none)) cs) c') :
    ∃ t object objects, c.threads[i]? = some t ∧ t.call = .startThreads (object :: objects) ∧
      Abandoned object c' := by
  have change := change_of_step fails
  clear fails
  cases change with
  | @call _ _ _ t d o ts alive here makesCalls place step delivered =>
    have woken := threadManager.deliver_woken delivered
    cases step with
    | @startThread object objects =>
      have before : uses object t = objects.count object + 1 + serves object t := by
        simp [uses, place, unstarted]
      have after : uses object (t.withCall makesCalls (.register ⟨object, 0⟩ objects)) =
        objects.count object + serves object t := rfl
      have moved := threadManager.total_run (stable_uses object) woken here
        (t.withCall makesCalls (.register ⟨object, 0⟩ objects)) []
      rw [before, after, total_nil] at moved
      have mine := le_total_of_getElem? (uses object) here
      have used := roster.used object
      have once := roster.once object
      unfold inUse at used
      refine ⟨t, object, objects, here, place, List.count_pos_iff.mp ?_, ?_⟩
      · show 0 < c.shared.workers.count object
        omega
      · show total (uses object) _ + c.shared.buried object = 0
        dsimp only [startThreadBlock]
        omega

end Step

theorem roster_of_run {ok : Config Impl Thread Event → Move Act → Prop} (clients : List Nat)
    {c : Config Impl Thread Event} (run : threadManager.Run ok (fresh clients) c) :
    Roster (∀ c mv, ok c mv → CreatesAll c mv) c :=
  run.invariant (roster_fresh _ clients)
    fun h ok next => roster_step h (fun all => all _ _ ok) (change_of_step next)

/-- An object is in `workers_` once at most, and on account of one thread at most: a call that has
still to start it, its live worker, or its dead one. Where every creation succeeds, `workers_`
holds no others. -/
theorem workers_accounted (clients : List Nat) (ok : Config Impl Thread Event → Move Act → Prop)
    (c : Config Impl Thread Event) (run : threadManager.Run ok (fresh clients) c) (object : Nat) :
    inUse object c ≤ c.shared.workers.count object ∧ c.shared.workers.count object ≤ 1 ∧
      ((∀ c mv, ok c mv → CreatesAll c mv) →
        c.shared.workers.count object = inUse object c) := by
  have roster := roster_of_run clients run
  have once := roster.once object
  exact ⟨roster.used object, by omega, fun all => (roster.all all object).symm⟩

/-- Two workers, one of which has left while the other waits for a task. -/
def growAndShrink : List (Move Act) :=
  [.run 0 (.call (.setThreadFactory true)) [], .run 0 (.call (.addWorker 2)) [],
    .run 0 (.call .newThreads) [], .run 0 (.call .raise) [],
    .run 0 (.call (.startThread (some 7))) [], .run 0 (.call .register) [],
    .run 0 (.call (.startThread (some 8))) [], .run 0 (.call .register) [],
    .run 1 (.worker .enter) [], .run 2 (.worker .enter) [], .run 2 (.worker .announce) [],
    .run 0 (.call .awaitAdded) [], .run 0 (.call (.removeWorker 1)) [], .run 0 (.call .lower) [],
    .run 1 (.worker (.iterate ⟨fun _ => 0, none⟩)) [], .run 1 (.worker .exit) [],
    .run 2 (.worker (.iterate ⟨fun _ => 0, none⟩)) []]

theorem workers_accounted_growAndShrink : ∃ c, threadManager.Run CreatesAll (fresh [1]) c ∧
    c.shared.workers = [0, 1] ∧ c.shared.deadWorkers = [⟨0, 7⟩] ∧
      ∀ object, c.shared.workers.count object = inUse object c := by
  obtain ⟨c, run, workers, dead⟩ := threadManager.exists_run CreatesAll (fresh [1])
    (fun c => c.shared.workers = [0, 1] ∧ c.shared.deadWorkers = [⟨0, 7⟩]) growAndShrink (by decide)
  refine ⟨c, run, workers, dead, fun object => ?_⟩
  exact (workers_accounted [1] CreatesAll c run object).2.2 fun _ _ all => all

/-- A `RemoveWorker` that finds the pool complete leaves in `workers_` the objects of the threads
that are alive or still to be started, if every creation succeeds. -/
theorem mem_workers_after_removal (clients : List Nat) {c c' : Config Impl Thread Event} {i : Nat}
    {cs : List Nat} (run : threadManager.Run CreatesAll (fresh clients) c)
    (removes : threadManager.Step c (.run i (.call .awaitRemoved) cs) c')
    (complete : c.shared.workerCount = c.shared.workerMaxCount) (object : Nat) :
    object ∈ c'.shared.workers ↔ ∃ t ∈ c'.threads, 0 < uses object t := by
  have collected : c'.shared.deadWorkers = [] := by
    have change := change_of_step removes
    clear removes
    cases change with
    | call _ _ _ _ step _ =>
      cases step with
      | removedParks short => exact absurd complete short
      | removed _ => rfl
  have allowed : CreatesAll c (.run i (.call .awaitRemoved) cs) := rfl
  have roster := roster_of_run clients (run.tail allowed removes)
  have exact : inUse object c' = c'.shared.workers.count object :=
    roster.all (fun _ _ all => all) object
  unfold inUse Impl.buried at exact
  rw [collected, List.countP_nil, Nat.add_zero] at exact
  rw [← List.count_pos_iff, ← exact]
  constructor
  · intro some
    obtain ⟨j, t, here, uses⟩ := exists_of_total_pos some
    exact ⟨t, List.mem_of_getElem? here, uses⟩
  · rintro ⟨t, mem, uses⟩
    exact Nat.lt_of_lt_of_le uses (le_total _ mem)

/-- No `RemoveWorker`, `Stop` or `Join` erases a thread object whose creation has failed: it stays
in `workers_` whatever is done later. -/
theorem failed_creation_stays (clients : List Nat) {c c' c'' : Config Impl Thread Event} {i : Nat}
    {cs : List Nat} (reach : threadManager.Reach (fresh clients) c)
    (fails : threadManager.Step c (.run i (.call (.startThread none)) cs) c')
    (later : threadManager.Reach c' c'') :
    ∃ t object objects, c.threads[i]? = some t ∧ t.call = .startThreads (object :: objects) ∧
      object ∈ c''.shared.workers ∧ inUse object c'' = 0 := by
  have roster {c : Config Impl Thread Event} (reach : threadManager.Reach (fresh clients) c) :
      Roster False c :=
    reach.invariant (roster_fresh False clients)
      fun h _ next => roster_step h False.elim (change_of_step next)
  obtain ⟨t, object, objects, here, place, abandoned⟩ := abandoned_of_failure (roster reach) fails
  let inv (c : Config Impl Thread Event) := Roster False c ∧ Abandoned object c
  have init : inv c' := ⟨roster (.tail reach trivial fails), abandoned⟩
  obtain ⟨-, listed, unused⟩ : inv c'' := later.invariant init fun h _ next =>
    ⟨roster_step h.1 False.elim (change_of_step next), abandoned_step h.1 h.2 (change_of_step next)⟩
  exact ⟨t, object, objects, here, place, listed, unused⟩

/-- Another client takes the limit back, and its `RemoveWorker` returns. -/
def failAndRemove : List (Move Act) :=
  [.run 0 (.call .register) [], .run 0 (.call .awaitAdded) [], .run 1 (.call (.removeWorker 1)) [],
    .run 1 (.call .lower) [], .run 1 (.call .awaitRemoved) []]

theorem failed_creation_stays_failAndRemove : ∃ c, threadManager.Reach (fresh [1, 2]) c ∧
    (1, Event.returned .removeWorker) ∈ c.log ∧
      ∃ object, object ∈ c.shared.workers ∧ inUse object c = 0 := by
  obtain ⟨c, reach, fires⟩ := threadManager.exists_reach (fresh [1, 2])
    (fun c => ((threadManager.step c (.run 0 (.call (.startThread none)) [])).any fun c' =>
      (threadManager.exec c' failAndRemove).any fun c'' =>
        decide ((1, Event.returned .removeWorker) ∈ c''.log)) = true)
    [.run 0 (.call (.setThreadFactory true)) [], .run 0 (.call (.addWorker 1)) [],
      .run 0 (.call .newThreads) [], .run 0 (.call .raise) []] (by decide)
  obtain ⟨c', step, removes⟩ := (Option.any_eq_true _ _).mp fires
  obtain ⟨c'', later, removed⟩ := threadManager.exists_reach c' _ failAndRemove removes
  have fails := threadManager.step_iff.mp step
  obtain ⟨-, object, -, -, -, listed, unused⟩ := failed_creation_stays [1, 2] reach fails later
  exact ⟨c'', (reach.tail trivial fails).trans later, removed, object, listed, unused⟩

end Threads.Manager
