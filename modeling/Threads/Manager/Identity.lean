import Threads.Manager.Shutdown

/-!
# Telling workers from clients

`Add` asks `id_map_` whether the calling thread is a worker. `AddWorker` inserts the
id of a thread after it has started it, and the next `RemoveWorker` erases the ids of
all dead workers; the system may have given such an id to another thread by then.
-/

namespace Threads.Manager

open Concurrency

/-- The thread function of a worker has been started and has not returned. -/
def Worker.alive : Worker → Bool
  | .absent | .finished => false
  | _ => true

/-- One for a live worker with the thread id `id`. -/
def lives (id : Nat) (t : Thread) : Nat := if t.worker.alive = true ∧ t.ref.id = id then 1 else 0

/-- One for a call of `AddWorker` that is about to insert `id`. -/
def registers (id : Nat) : Call → Nat
  | .register thread _ => if thread.id = id then 1 else 0
  | _ => 0

instance (id : Nat) : SteadyCall (registers id) := ⟨fun c => by cases c <;> rfl⟩

/-- The live workers with this id. -/
def living (id : Nat) (ts : List Thread) : Nat := total (lives id) ts

/-- The insertions of this id still to come. -/
def registering (id : Nat) (ts : List Thread) : Nat := total (onCall (registers id)) ts

/-- A dead worker with this id has not been collected. -/
def Impl.uncollected (s : Impl) (id : Nat) : Bool := s.deadWorkers.any (fun dead => dead.id == id)

/-- A client is a thread of its own: its id is not 0, and no live worker has it. -/
def OwnIds (c : Config Impl Thread Event) : Move Act → Prop
  | .run i (.call (.add _ _ _)) _ => ∀ t ∈ c.threads[i]?, t.worker = .absent →
    t.ref.id ≠ 0 ∧ living t.ref.id c.threads = 0
  | _ => True

/-- Where the id of a dead worker is erased, it is still to be inserted exactly if a live
worker has it. A task calls `Add` only after its worker has been registered, and a
client only while its id is not that of an uncollected dead worker. -/
def RegistersInTime (c : Config Impl Thread Event) : Move Act → Prop
  | .run _ (.call .awaitRemoved) _ => c.shared.workerCount = c.shared.workerMaxCount →
    ∀ dead ∈ c.shared.deadWorkers,
      (0 < living dead.id c.threads ↔ 0 < registering dead.id c.threads)
  | .run i (.call (.add _ _ _)) _ => ∀ t ∈ c.threads[i]?,
    (t.worker ≠ .absent → registering t.ref.id c.threads = 0) ∧
      (t.worker = .absent → c.shared.uncollected t.ref.id = false)
  | _ => True

instance (c : Config Impl Thread Event) (mv : ManagerMove) : Decidable (OwnIds c mv) := by
  unfold OwnIds
  split <;> infer_instance

instance (c : Config Impl Thread Event) (mv : ManagerMove) : Decidable (RegistersInTime c mv) := by
  unfold RegistersInTime
  split <;> infer_instance

/-- What `Add` makes of its caller: a worker is in `id_map_`, is refused by a full queue
and never waits; a client is not, and is not refused as long as it is ready to wait. -/
structure TellsApart (c : Config Impl Thread Event) (i : Nat) (r : Request) (env : Surroundings)
    (c' : Config Impl Thread Event) : Prop where
  worker : ∀ t ∈ c.threads[i]?, t.worker ≠ .absent → c.shared.canSleep t.ref.id = false ∧
    (∀ t' ∈ c'.threads[i]?, t'.call = .none) ∧
    (reachesCanSleep c.shared env = true →
      (i, .threw .add .tooManyPendingTasks) ∈ c'.log.drop c.log.length)
  client : ∀ t ∈ c.threads[i]?, t.worker = .absent → c.shared.canSleep t.ref.id = true ∧
    (0 ≤ r.timeout → (i, .threw .add .tooManyPendingTasks) ∉ c'.log.drop c.log.length)

set_option synthInstance.maxSize 256 in
instance (c : Config Impl Thread Event) (i : Nat) (r : Request) (env : Surroundings)
    (c' : Config Impl Thread Event) : Decidable (TellsApart c i r env c') :=
  decidable_of_iff
    ((∀ t ∈ c.threads[i]?, t.worker ≠ .absent → c.shared.canSleep t.ref.id = false ∧
      (∀ t' ∈ c'.threads[i]?, t'.call = .none) ∧
      (reachesCanSleep c.shared env = true →
        (i, .threw .add .tooManyPendingTasks) ∈ c'.log.drop c.log.length)) ∧
      ∀ t ∈ c.threads[i]?, t.worker = .absent → c.shared.canSleep t.ref.id = true ∧
        (0 ≤ r.timeout → (i, .threw .add .tooManyPendingTasks) ∉ c'.log.drop c.log.length))
    ⟨fun ⟨worker, client⟩ => ⟨worker, client⟩, fun ⟨worker, client⟩ => ⟨worker, client⟩⟩

/-! ## One step -/

/-- Every live worker is registered or about to be, and every id that is registered or
about to be is that of a live worker or of an uncollected one. The id 0 stands for
threads that were not created. -/
structure Registered (c : Config Impl Thread Event) : Prop where
  known : ∀ id, 0 < living id c.threads →
    c.shared.canSleep id = false ∨ 0 < registering id c.threads
  owned : ∀ id, c.shared.canSleep id = false ∨ 0 < registering id c.threads →
    id = 0 ∨ 0 < living id c.threads ∨ c.shared.uncollected id = true

theorem stable_lives (id : Nat) : threadManager.Stable (lives id) := by
  intro t _
  have same : t.worker.wake.alive = t.worker.alive := by cases t.worker <;> rfl
  show (if t.worker.wake.alive = true ∧ t.ref.id = id then 1 else 0) = lives id t
  rw [same]
  rfl

section Worker

variable {s : Impl} {ref : ThreadRef} {w : Worker} {a : WorkerAct} {o : Effect Worker}

/-- Only the exit block ends a worker, and it leaves the worker among the dead. -/
theorem WorkerStep.identity (h : WorkerStep s ref w a o) : o.shared.idMap = s.idMap ∧
    (w.alive = true ∧ o.self.alive = true ∧ o.shared.deadWorkers = s.deadWorkers ∨
      w.alive = true ∧ o.self.alive = false ∧ o.shared.deadWorkers = s.deadWorkers ++ [ref]) := by
  have working (s : Impl) (env : Surroundings) : (workBlock s env).shared.idMap = s.idMap ∧
      (workBlock s env).self.alive = true ∧
        (workBlock s env).shared.deadWorkers = s.deadWorkers := by
    obtain ⟨_, _, _, -, eq⟩ := workBlock_shared s env
    rw [eq]
    refine ⟨rfl, ?_, rfl⟩
    rcases workBlock_self s env with self | ⟨t, self⟩ | self <;> rw [self] <;> rfl
  cases h with
  | enters =>
    refine ⟨rfl, .inl ⟨rfl, ?_, rfl⟩⟩
    dsimp only
    split <;> rfl
  | works =>
    obtain ⟨ids, alive, dead⟩ := working s _
    exact ⟨ids, .inl ⟨rfl, alive, dead⟩⟩
  | wakesAndWorks =>
    obtain ⟨ids, alive, dead⟩ := working { s with idleCount := decrement s.idleCount } _
    exact ⟨ids, .inl ⟨rfl, alive, dead⟩⟩
  | exited => exact ⟨rfl, .inr ⟨rfl, rfl, rfl⟩⟩
  | _ => exact ⟨rfl, .inl ⟨rfl, rfl, rfl⟩⟩

end Worker

section Call

variable {s : Impl} {id : Nat} {d : Call} {a : CallAct} {o : Effect Call}

theorem canSleep_register (s : Impl) (thread : ThreadRef) (objects : List Nat) (id : Nat) :
    (registerBlock s thread objects).shared.canSleep id = false ↔
      s.canSleep id = false ∨ thread.id = id := by
  simp only [registerBlock, Impl.canSleep]
  split
  · rename_i present
    constructor
    · exact .inl
    · rintro (mapped | rfl)
      · exact mapped
      · simpa using present
  · simp only [Bool.not_eq_false', List.any_append, List.any_cons, List.any_nil, Bool.or_false,
      Bool.or_eq_true, beq_iff_eq]

theorem canSleep_collect (s : Impl) (id : Nat) :
    (collectDead s).canSleep id = false ↔ s.canSleep id = false ∧ s.uncollected id = false := by
  simp only [collectDead, Impl.canSleep, Impl.uncollected, Bool.not_eq_false', List.any_eq_true,
    List.mem_filter, beq_iff_eq, Bool.not_eq_true', List.any_eq_false]
  constructor
  · rintro ⟨thread, ⟨mem, absent⟩, rfl⟩
    exact ⟨⟨thread, mem, rfl⟩, absent⟩
  · rintro ⟨⟨thread, mem, rfl⟩, absent⟩
    exact ⟨thread, ⟨mem, absent⟩, rfl⟩

/-- What a block of a call does to the ids that are registered. -/
inductive IdMove (s : Impl) (d : Call) (a : CallAct) (o : Effect Call) : Prop
  | aside (ids : o.shared.idMap = s.idMap) (dead : o.shared.deadWorkers = s.deadWorkers)
      (spawned : o.spawned = []) (before : ∀ id, registers id d = 0)
      (after : ∀ id, registers id o.self = 0)
  | starts (object : Nat) (objects : List Nat) (created : Option Nat)
      (place : d = .startThreads (object :: objects))
      (block : o = startThreadBlock s object objects created)
  | registers (thread : ThreadRef) (objects : List Nat) (place : d = .register thread objects)
      (block : o = registerBlock s thread objects)
  | collects (act : a = .awaitRemoved) (complete : s.workerCount = s.workerMaxCount)
      (shared : o.shared = collectDead s) (spawned : o.spawned = [])
      (before : ∀ id, Manager.registers id d = 0) (after : ∀ id, Manager.registers id o.self = 0)

theorem CallStep.idMove (h : CallStep s id d a o) : IdMove s d a o := by
  cases h with
  | @started workers =>
    cases workers <;> exact .aside rfl rfl rfl (fun _ => rfl) fun _ => rfl
  | @startAgain workers | @resumeStart workers =>
    unfold startWaitBlock
    split <;> cases workers <;> exact .aside rfl rfl rfl (fun _ => rfl) fun _ => rfl
  | @raise objects => cases objects <;> exact .aside rfl rfl rfl (fun _ => rfl) fun _ => rfl
  | startThread => exact .starts _ _ _ rfl rfl
  | register => exact .registers _ _ rfl rfl
  | @removed caller complete =>
    cases caller <;> exact .collects rfl complete rfl rfl (fun _ => rfl) fun _ => rfl
  | remove =>
    obtain ⟨e, eq⟩ := removeBlock_eq s
    rw [eq]
    exact .aside rfl rfl rfl (fun _ => rfl) fun _ => rfl
  | removeNextPending =>
    obtain ⟨tasks, es, -, eq⟩ := removeNextPendingBlock_eq s
    rw [eq]
    exact .aside rfl rfl rfl (fun _ => rfl) fun _ => rfl
  | _ => exact .aside rfl rfl rfl (fun _ => rfl) fun _ => rfl

end Call

section Step

variable {c c' : Config Impl Thread Event} {mv : Move Act}

theorem canSleep_congr {s s' : Impl} (ids : s'.idMap = s.idMap) (id : Nat) :
    s'.canSleep id = s.canSleep id := by
  unfold Impl.canSleep
  rw [ids]

theorem uncollected_congr {s s' : Impl} (dead : s'.deadWorkers = s.deadWorkers) (id : Nat) :
    s'.uncollected id = s.uncollected id := by
  unfold Impl.uncollected
  rw [dead]

/-- A step that changes neither the ids of the manager nor those on their way. -/
theorem Registered.congr (h : Registered c) (ids : c'.shared.idMap = c.shared.idMap)
    (dead : c'.shared.deadWorkers = c.shared.deadWorkers)
    (live : ∀ id, living id c'.threads = living id c.threads)
    (insert : ∀ id, registering id c'.threads = registering id c.threads) : Registered c' := by
  constructor
  · intro id
    rw [live, insert, canSleep_congr ids]
    exact h.known id
  · intro id
    rw [live, insert, canSleep_congr ids, uncollected_congr dead]
    exact h.owned id

theorem registered_of_move (h : Registered c) {d : Call} {a : CallAct} {o : Effect Call}
    (move : IdMove c.shared d a o) (shared : c'.shared = o.shared)
    (moved : ∀ id, living id c'.threads = living id c.threads + living id o.spawned)
    (inserts : ∀ id, registering id c'.threads + registers id d =
      registering id c.threads + registers id o.self)
    (collects : a = .awaitRemoved → c.shared.workerCount = c.shared.workerMaxCount →
      ∀ dead ∈ c.shared.deadWorkers,
        (0 < living dead.id c.threads ↔ 0 < registering dead.id c.threads)) : Registered c' := by
  have known := h.known
  have owned := h.owned
  cases move with
  | aside ids dead spawned before after =>
    refine h.congr (shared ▸ ids) (shared ▸ dead) (fun id => ?_) fun id => ?_
    · rw [moved, spawned]
      rfl
    · have same := inserts id
      rwa [before, after] at same
  | starts object objects created place block =>
    subst block place
    cases created with
    | none =>
      have live (id : Nat) : living id c'.threads = living id c.threads := moved id
      have insert (id : Nat) : registering id c'.threads =
        registering id c.threads + if 0 = id then 1 else 0 := inserts id
      have same : c'.shared = c.shared := shared
      refine ⟨fun id => ?_, fun id => ?_⟩
      · have before := known id
        rw [same, live, insert]
        grind
      · have before := owned id
        rw [same, live, insert]
        grind
    | some new =>
      have live (id : Nat) : living id c'.threads =
        living id c.threads + ((if true = true ∧ new = id then 1 else 0) + 0) := moved id
      have insert (id : Nat) : registering id c'.threads =
        registering id c.threads + if new = id then 1 else 0 := inserts id
      have same : c'.shared = c.shared := shared
      refine ⟨fun id => ?_, fun id => ?_⟩
      · have before := known id
        rw [same, live, insert]
        grind
      · have before := owned id
        rw [same, live, insert]
        grind
  | registers thread objects place block =>
    subst block place
    have quiet (id : Nat) : registers id (Call.startLoop objects) = 0 := by cases objects <;> rfl
    have live (id : Nat) : living id c'.threads = living id c.threads := moved id
    have insert (id : Nat) : registering id c'.threads + (if thread.id = id then 1 else 0) =
      registering id c.threads := (inserts id).trans (congrArg _ (quiet id))
    have same (id : Nat) : c'.shared.uncollected id = c.shared.uncollected id := by
      rw [shared]
      rfl
    refine ⟨fun id => ?_, fun id => ?_⟩
    · have before := known id
      have balance := insert id
      rw [shared, live, canSleep_register]
      grind
    · have before := owned id
      have balance := insert id
      rw [shared, live, canSleep_register, ← shared, same]
      grind
  | collects act complete shared' spawned before after =>
    have live (id : Nat) : living id c'.threads = living id c.threads := by
      rw [moved, spawned]
      rfl
    have insert (id : Nat) : registering id c'.threads = registering id c.threads := by
      have same := inserts id
      rwa [before, after] at same
    have fate := collects act complete
    have dead (id : Nat) (buried : c.shared.uncollected id = true) :
        0 < living id c.threads ↔ 0 < registering id c.threads := by
      obtain ⟨thread, mem, eq⟩ := List.any_eq_true.mp buried
      exact beq_iff_eq.mp eq ▸ fate thread mem
    refine ⟨fun id => ?_, fun id => ?_⟩
    · have before := known id
      have buried := dead id
      rw [shared, shared', live, insert, canSleep_collect]
      grind
    · have before := owned id
      have buried := dead id
      rw [shared, shared', live, insert, canSleep_collect]
      grind

theorem registered_step (h : Registered c) (ok : RegistersInTime c mv) (change : Change c mv c') :
    Registered c' := by
  cases change with
  | @spurious i t here waits =>
    have live (id : Nat) : living id (c.threads.set i t.wake) = living id c.threads :=
      threadManager.total_spurious (stable_lives id) here waits
    have insert (id : Nat) : registering id (c.threads.set i t.wake) = registering id c.threads :=
      total_call_spurious (registers id) here waits
    exact h.congr rfl rfl live insert
  | @worker i a cs t w o ts alive here idle place step delivered =>
    subst place
    have woken := threadManager.deliver_woken delivered
    have insert (id : Nat) : registering id (ts.set i (t.withWorker idle o.self)) =
      registering id c.threads := total_worker_call (registers id) woken here idle o.self
    have moved (id : Nat) : living id (ts.set i (t.withWorker idle o.self)) + lives id t =
        living id c.threads + lives id (t.withWorker idle o.self) := by
      have changed := threadManager.total_run (stable_lives id) woken here
        (t.withWorker idle o.self) []
      simpa [living] using changed
    obtain ⟨ids, ⟨before, after, dead⟩ | ⟨before, after, dead⟩⟩ := step.identity
    · have same (id : Nat) : lives id (t.withWorker idle o.self) = lives id t := by
        simp [lives, Thread.withWorker, before, after]
      have live (id : Nat) : living id (ts.set i (t.withWorker idle o.self)) =
          living id c.threads := by
        have balance := moved id
        rw [same] at balance
        omega
      exact h.congr ids dead live insert
    · have live (id : Nat) : living id (ts.set i (t.withWorker idle o.self)) +
          (if t.ref.id = id then 1 else 0) = living id c.threads := by
        have balance := moved id
        simpa [lives, Thread.withWorker, before, after] using balance
      have buried (id : Nat) : o.shared.uncollected id = true ↔
          c.shared.uncollected id = true ∨ t.ref.id = id := by
        simp [Impl.uncollected, dead]
      refine ⟨fun id => ?_, fun id => ?_⟩
      · have known := h.known id
        have balance := live id
        dsimp only
        rw [insert, canSleep_congr ids]
        grind
      · have owned := h.owned id
        have balance := live id
        dsimp only
        rw [insert, canSleep_congr ids, buried]
        grind
  | @call i a cs t d o ts alive here makesCalls place step delivered =>
    subst place
    have woken := threadManager.deliver_woken delivered
    refine registered_of_move h step.idMove rfl (fun id => ?_) (fun id => ?_) ?_
    · have changed := threadManager.total_run (stable_lives id) woken here
        (t.withCall makesCalls o.self) o.spawned
      have same : lives id (t.withCall makesCalls o.self) = lives id t := rfl
      unfold living
      dsimp only
      omega
    · exact step.moves_calls (registers id) rfl woken here makesCalls
    · intro act complete
      subst act
      exact ok complete

theorem registered_fresh (clients : List Nat) : Registered (fresh clients) := by
  refine ⟨fun id some => ?_, fun id reached => ?_⟩
  · rw [living, total_fresh clients fun _ => rfl] at some
    cases some
  · rcases reached with mapped | pending
    · cases mapped
    · rw [registering, total_fresh clients fun _ => rfl] at pending
      cases pending

/-- The caller is known for what it is when `Add` looks at it. -/
theorem Registered.caller (h : Registered c) {i : Nat} {cs : List Nat} {r : Request}
    {env : Surroundings} {now : Int} (own : OwnIds c (.run i (.call (.add r env now)) cs))
    (ok : RegistersInTime c (.run i (.call (.add r env now)) cs)) {t : Thread}
    (here : c.threads[i]? = some t) (makesCalls : t.worker.makesCalls = true) :
    c.shared.canSleep t.ref.id = decide (t.worker = .absent) := by
  obtain ⟨registered, collected⟩ := ok t here
  by_cases client : t.worker = .absent
  · rw [decide_eq_true client]
    obtain ⟨nonzero, nobody⟩ := own t here client
    have owned := h.owned t.ref.id
    have none := collected client
    rcases sleeps : c.shared.canSleep t.ref.id with - | -
    · rcases owned (.inl sleeps) with zero | live | dead
      · exact absurd zero nonzero
      · omega
      · rw [none] at dead
        cases dead
    · rfl
  · rw [decide_eq_false client]
    have alive : t.worker.alive = true := by
      generalize t.worker = w at makesCalls client
      cases w with
      | absent => exact absurd rfl client
      | running => rfl
      | _ => cases makesCalls
    have present : 0 < living t.ref.id c.threads := by
      have mine := le_total_of_getElem? (lives t.ref.id) here
      rw [lives, if_pos ⟨alive, rfl⟩] at mine
      exact mine
    have pending := registered client
    rcases h.known _ present with mapped | inserts
    · exact mapped
    · omega

theorem not_tooMany_expiry {s : Impl} {env : Surroundings} :
    Event.threw .add .tooManyPendingTasks ∉ s.expiryEvents env := by
  intro mem
  rcases Impl.mem_expiryEvents mem with ⟨t, eq⟩ | ⟨t, callback, eq⟩ <;> cases eq

/-- What `Add` does with a caller depends on whether it may sleep. -/
theorem CallStep.add_outcome {s : Impl} {id : Nat} {d : Call} {r : Request} {env : Surroundings}
    {now : Int} {o : Effect Call} (h : CallStep s id d (.add r env now) o) :
    (s.canSleep id = false → o.self = .none ∧ (reachesCanSleep s env = true →
      .threw .add .tooManyPendingTasks ∈ o.events)) ∧
    (s.canSleep id = true → 0 ≤ r.timeout →
      .threw .add .tooManyPendingTasks ∉ o.events) := by
  have same : (s.removeExpiredTasks env).canSleep id = s.canSleep id := rfl
  cases h with
  | addRefused closed =>
    refine ⟨fun _ => ⟨rfl, fun reaches => ?_⟩, fun _ _ => by simp [notStarted]⟩
    simp [reachesCanSleep, closed] at reaches
  | addRaised opened raised =>
    refine ⟨fun _ => ⟨rfl, fun reaches => ?_⟩, fun _ _ => ?_⟩
    · simp [reachesCanSleep, raised] at reaches
    · simp [not_tooMany_expiry]
  | addParks opened full sleeps =>
    refine ⟨fun refused => ?_, fun _ _ => not_tooMany_expiry⟩
    rw [same, refused] at sleeps
    cases sleeps
  | addTooMany opened full refuses =>
    refine ⟨fun _ => ⟨rfl, fun _ => by simp⟩, fun sleeps patient => ?_⟩
    rw [same, sleeps] at refuses
    rcases refuses with refused | hurried
    · cases refused
    · exact absurd patient (Int.not_le.mpr hurried)
  | adds opened room =>
    refine ⟨fun _ => ⟨rfl, fun reaches => ?_⟩, fun _ _ => ?_⟩
    · simp [reachesCanSleep, room] at reaches
    · simp [not_tooMany_expiry]

end Step

/-- A call of `Add` with timeout 0 at a time when no task expires. -/
def addOf (client value : Nat) : Move Act :=
  .run client (.call (.add ⟨value, 0, 0⟩ ⟨fun _ => 0, none⟩ 0)) []

/-- The worker 2 takes a task and begins it, and a client fills the queue again. -/
def occupy (worker client : Nat) : List (Move Act) :=
  [addOf client 10, .run worker (.worker (.iterate ⟨fun _ => 0, none⟩)) [],
    .run worker (.worker .run) [], addOf client 11]

/-- The same before `AddWorker` has inserted the id of its worker. -/
def addUnregistered : List (Move Act) := fillQueue.take 10 ++ occupy 2 1

/-- The worker 7 leaves, the system gives its id to the next worker, and `RemoveWorker`
erases the id of both. -/
def eraseReused : List (Move Act) :=
  fillQueue.take 12 ++
    [.run 1 (.call (.removeWorker 1)) [], .run 1 (.call .lower) [],
      .run 2 (.worker (.iterate ⟨fun _ => 0, none⟩)) [], .run 2 (.worker .exit) [],
      .run 0 (.call (.addWorker 1)) [], .run 0 (.call .newThreads) [], .run 0 (.call .raise) [],
      .run 0 (.call (.startThread (some 7))) [], .run 0 (.call .register) [],
      .run 3 (.worker .enter) [], .run 3 (.worker .announce) [], .run 1 (.call .awaitRemoved) []] ++
    occupy 3 1

/-- The worker 7 leaves, and a client gets its id before it is erased. -/
def inheritId : List (Move Act) :=
  fillQueue.take 12 ++
    [.run 0 (.call (.removeWorker 1)) [], .run 0 (.call .lower) [],
      .run 2 (.worker (.iterate ⟨fun _ => 0, none⟩)) [], .run 2 (.worker .exit) [], addOf 1 10]

end Threads.Manager
