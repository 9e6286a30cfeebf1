import Threads.Manager.Returning
import Threads.Splitter.Completion
import Threads.Splitter.Rank
import Threads.Splitter.Teardown

/-!
# The scheduler at rest

A job's task never expires and is never withdrawn, so the thread manager loses none. Once the
scheduler has come to rest, with a worker left, every job it accepted has been executed and
reported, and `pending_job_count_` says so.
-/

namespace Threads.Manager

open Concurrency

/-! ## Every task is somewhere -/

/-- A task leaves the queue without being handed to a worker. -/
def Event.isDiscard : Event → Bool
  | .expired _ _ | .withdrawn _ _ => true
  | _ => false

theorem taken_length (j : Nat) (es : List Event) :
    ((es.map (Prod.mk j)).filterMap takenTask).length =
      ((es.map (Prod.mk j)).filterMap (handedTo j)).length + es.countP Event.isDiscard := by
  induction es with
  | nil => rfl
  | cons e es ih =>
    rw [List.map_cons, List.filterMap_cons, List.filterMap_cons, List.countP_cons]
    cases e with
    | dequeued =>
      simp only [takenTask, handedTo, if_true, List.length_cons, Event.isDiscard,
        Bool.false_eq_true, if_false]
      omega
    | expired | withdrawn =>
      simp only [takenTask, handedTo, List.length_cons, Event.isDiscard, if_true]
      omega
    | _ => exact ih

/-- Where the tasks of a block come from and where they go. -/
theorem Accounts.balances {j : Nat} {s s' : Impl} {h h' : Hands} {es : List Event}
    (block : Accounts j s h s' h' (es.map (Prod.mk j))) :
    es.countP Event.isFinish + es.countP Event.isDiscard + (h'.held.length + h'.running.length) +
        s'.tasks.length =
      es.countP Event.isPush + (h.held.length + h.running.length) + s.tasks.length := by
  have queue := congrArg List.length block.queue
  have held := congrArg List.length block.held
  have running := congrArg List.length block.running
  have taken := taken_length j es
  have pushes := countP_thread j es (p := Event.isPush) (f := pushedTask) fun e => by
    cases e <;> rfl
  have finishes := countP_thread j es (p := Event.isFinish) (f := finishedBy j) fun e => by
    cases e <;> simp [finishedBy, Event.isFinish]
  simp only [List.length_append, List.length_map] at queue held running
  omega

/-- Every task that was pushed is finished, discarded, in hand or queued. -/
def TasksBalanced (c : Config Impl Thread Event) : Prop :=
  c.log.countP (fun e => e.2.isFinish) + c.log.countP (fun e => e.2.isDiscard) +
    total inHand c.threads + c.shared.tasks.length = c.log.countP fun e => e.2.isPush

theorem tasksBalanced_step {c c' : Config Impl Thread Event} {mv : Move Act}
    (account : QueueAccount c) (h : TasksBalanced c) (change : Change c mv c') :
    TasksBalanced c' := by
  unfold TasksBalanced at h ⊢
  have entries (p : Event → Bool) (i : Nat) (es : List Event) :
      (c.log ++ es.map (Prod.mk i)).countP (fun e => p e.2) =
        c.log.countP (fun e => p e.2) + es.countP p := by
    rw [List.countP_append, List.countP_map]
    rfl
  cases change with
  | spurious here waits =>
    have same := threadManager.total_spurious stable_inHand here waits
    exact (congrArg (_ + · + _) same).trans h
  | @worker i a cs t w o ts alive here idle place step delivered =>
    subst place
    have block := (step.accounts (account.ready t (List.mem_of_getElem? here)) i).balances
    have moved := threadManager.total_run stable_inHand (threadManager.deliver_woken delivered) here
      (t.withWorker idle o.self) []
    rw [List.append_nil, total_nil] at moved
    have before : inHand t = t.worker.hands.held.length + t.worker.hands.running.length := rfl
    have after : inHand (t.withWorker idle o.self) =
        o.self.hands.held.length + o.self.hands.running.length := rfl
    simp only [entries]
    omega
  | @call i a cs t d o ts alive here makesCalls place step delivered =>
    have block := (step.accounts i t.worker.hands).balances
    have moved := threadManager.total_run stable_inHand (threadManager.deliver_woken delivered) here
      (t.withCall makesCalls o.self) o.spawned
    have started := total_started step (f := inHand) fun _ => rfl
    have same : inHand (t.withCall makesCalls o.self) = inHand t := rfl
    simp only [entries]
    omega

theorem tasksBalanced_of_reach {clients : List Nat} {c : Config Impl Thread Event}
    (reach : threadManager.Reach (fresh clients) c) : TasksBalanced c := by
  let inv (c : Config Impl Thread Event) := QueueAccount c ∧ TasksBalanced c
  have init : inv (fresh clients) := by
    refine ⟨queueAccount_fresh clients, ?_⟩
    unfold TasksBalanced
    rw [total_fresh clients fun _ => rfl]
    rfl
  have both : inv c := reach.invariant init fun h _ step =>
    ⟨queueAccount_step h.1 (change_of_step step), tasksBalanced_step h.1 h.2 (change_of_step step)⟩
  exact both.2

/-! ## Tasks without an expiration -/

/-- No task in the queue ever expires. -/
def Lasting (s : Impl) : Prop := ∀ t ∈ s.tasks, t.expireTime = 0

theorem Lasting.expiry {s : Impl} (h : Lasting s) (env : Surroundings) :
    s.expiry env = ⟨[], s.tasks, false⟩ := by
  unfold Impl.expiry
  cases queue : s.tasks with
  | nil => rfl
  | cons t ts =>
    have never := h t (by rw [queue]; exact List.mem_cons_self)
    rw [expirePass, if_pos never]

theorem Lasting.expiryEvents {s : Impl} (h : Lasting s) (env : Surroundings) :
    s.expiryEvents env = [] := by
  simp [Impl.expiryEvents, h.expiry env]

theorem Lasting.removeExpiredTasks {s : Impl} (h : Lasting s) (env : Surroundings) :
    (s.removeExpiredTasks env).tasks = s.tasks := by
  simp [Impl.removeExpiredTasks, h.expiry env]

theorem Lasting.of_suffix {s s' : Impl} (h : Lasting s) (suffix : s'.tasks <:+ s.tasks) :
    Lasting s' := fun t mem => h t (suffix.mem mem)

/-- What a block does to a queue whose tasks last. -/
structure Keeps {Self : Type} (s : Impl) (o : Effect Self) : Prop where
  lasting : Lasting o.shared
  same : o.shared.terminated = s.terminated ∧ o.shared.threadFactory = s.threadFactory
  nothing : o.events.countP Event.isDiscard = 0

theorem Keeps.of_suffix {Self : Type} {s : Impl} {o : Effect Self} (h : Lasting s)
    (suffix : o.shared.tasks <:+ s.tasks)
    (same : o.shared.terminated = s.terminated ∧ o.shared.threadFactory = s.threadFactory)
    (nothing : o.events.countP Event.isDiscard = 0) : Keeps s o :=
  ⟨h.of_suffix suffix, same, nothing⟩

theorem workBlock_keeps {s : Impl} (h : Lasting s) (env : Surroundings) :
    Keeps s (workBlock s env) := by
  have tasks := h.removeExpiredTasks env
  unfold workBlock
  dsimp only
  rw [if_neg (by rw [h.expiry env]; exact Bool.false_ne_true), h.expiryEvents env]
  split
  · exact .of_suffix h (by rw [tasks]) ⟨rfl, rfl⟩ rfl
  · rename_i t ts queue
    rw [tasks] at queue
    exact .of_suffix h (queue ▸ List.suffix_cons t ts) ⟨rfl, rfl⟩ rfl

theorem WorkerStep.keeps_lasting {s : Impl} {ref : ThreadRef} {w : Worker} {a : WorkerAct}
    {o : Effect Worker} (h : WorkerStep s ref w a o) (lasting : Lasting s) : Keeps s o := by
  cases h with
  | works => exact workBlock_keeps lasting _
  | @wakesAndWorks env =>
    have kept := workBlock_keeps (s := { s with idleCount := decrement s.idleCount }) lasting env
    exact ⟨kept.lasting, kept.same, kept.nothing⟩
  | exited =>
    unfold exitBlock
    exact .of_suffix lasting (List.suffix_refl _) ⟨rfl, rfl⟩ rfl
  | _ => exact .of_suffix lasting (List.suffix_refl _) ⟨rfl, rfl⟩ rfl

theorem CallStep.keeps_lasting {s : Impl} {id : Nat} {d : Call} {a : CallAct} {o : Effect Call}
    (h : CallStep s id d a o) {f : Family} (own : d.family.or a.family = some f)
    (ageless : ∀ r, f = .add r → r.expiration = 0) (lasting : Lasting s) : Keeps s o := by
  have same {o : Effect Call} (tasks : o.shared.tasks = s.tasks)
      (kept : o.shared.terminated = s.terminated ∧ o.shared.threadFactory = s.threadFactory)
      (nothing : o.events.countP Event.isDiscard = 0) : Keeps s o :=
    .of_suffix lasting (by rw [tasks]) kept nothing
  have push {s' : Impl} (tasks : s'.tasks = s.tasks) {r : Request} (forever : r.expiration = 0)
      (now : Int) : Lasting (pushed s' r now) := by
    intro t mem
    rcases List.mem_append.mp mem with old | new
    · exact lasting t (tasks ▸ old)
    · rw [List.mem_singleton.mp new]
      exact if_neg (not_not.mpr forever)
  have started (workers : Option Nat) : (startedEvents workers).countP Event.isDiscard = 0 := by
    cases workers <;> rfl
  cases h with
  | @started workers => exact same rfl ⟨rfl, rfl⟩ (started workers)
  | @startAgain workers | @resumeStart workers =>
    unfold startWaitBlock
    split
    · exact same rfl ⟨rfl, rfl⟩ rfl
    · exact same rfl ⟨rfl, rfl⟩ (started workers)
  | @startThread _ _ created => cases created <;> exact same rfl ⟨rfl, rfl⟩ rfl
  | @removed caller => cases caller <;> exact same rfl ⟨rfl, rfl⟩ rfl
  | @addParks r env | @addRaised r env | @addTooMany r env =>
    exact same (lasting.removeExpiredTasks env) ⟨rfl, rfl⟩ (by rw [lasting.expiryEvents env]; rfl)
  | @adds r env now =>
    cases own
    exact ⟨push (lasting.removeExpiredTasks env) (ageless r rfl) now, ⟨rfl, rfl⟩,
      by rw [lasting.expiryEvents env]; rfl⟩
  | @resumesAndAdds r now =>
    cases own
    exact ⟨push rfl (ageless r rfl) now, ⟨rfl, rfl⟩, rfl⟩
  | remove | removeNextPending | removeExpiredTasks | setExpireCallback | setThreadFactory |
      expiredTaskCount => cases own
  | _ => exact same rfl ⟨rfl, rfl⟩ rfl

/-! ## Calls that begin -/

theorem CallStep.begins_idle {s : Impl} {id : Nat} {d : Call} {a : CallAct} {o : Effect Call}
    (h : CallStep s id d a o) (begins : a.beginsResize = true) : d = .none := by
  cases h <;> first | rfl | cases begins

theorem Change.begins_idle {c c' : Config Impl Thread Event} {i : Nat} {a : CallAct}
    {cs : List Nat} (h : Change c (.run i (.call a) cs) c') (begins : a.beginsResize = true)
    {t : Thread} (here : c.threads[i]? = some t) : t.call = .none := by
  cases h with
  | call _ there makesCalls place step =>
    obtain rfl := Option.some.inj (there.symm.trans here)
    rw [place]
    exact step.begins_idle begins

end Threads.Manager

namespace Threads.Splitter

open Concurrency

/-! ## The calls that change the size of the pool take turns -/

/-- One for a place at which `Start` or `Stop` is called, or which comes before it. -/
def Place.resizing : Place → Nat
  | .initializing | .starting | .destroying _ => 1
  | _ => 0

def JobScheduler.standing (s : JobScheduler) : Nat := if 0 < s.useCount .scheduler then 1 else 0

/-- One thread makes the scheduler and one destroys it, with nobody holding it before or after. -/
structure OneOwner (c : Config JobScheduler Member JobEvent) : Prop where
  refs : RefsCounted c
  one : total (atPlaces Place.resizing) c.threads + c.shared.standing ≤ 1

theorem Back.place_resizing (back : Back) : back.place.resizing = 0 := by
  cases back <;> rfl

theorem placeOf_resizing (w : Manager.Worker) : (placeOf w).resizing = 0 := by
  cases w <;> rfl

theorem standing_of_pos {s : JobScheduler} (live : 0 < s.useCount .scheduler) : s.standing = 1 :=
  if_pos live

theorem hold_standing (s : JobScheduler) : (s.hold .scheduler).standing = 1 := by
  apply standing_of_pos
  rw [JobScheduler.hold_useCount, if_pos rfl]
  exact Nat.succ_pos _

theorem standing_of_hold {s : JobScheduler} {o : Observer} (live : 0 < s.useCount o) :
    (s.hold o).standing = s.standing := by
  by_cases same : Observer.scheduler = o
  · subst same
    rw [hold_standing, standing_of_pos live]
  · unfold JobScheduler.standing
    rw [JobScheduler.hold_useCount, if_neg same, Nat.add_zero]

theorem CallEnds.standing {s s' : JobScheduler} {o : Manager.Effect Manager.Call} {p p' : Place}
    (h : CallEnds s o p s' p') (one : p.resizing + s.standing ≤ 1) :
    p'.resizing + s'.standing ≤ p.resizing + s.standing := by
  cases h with
  | makes =>
    show 0 + (s.hold .scheduler).standing ≤ 1 + s.standing
    rw [hold_standing]
    exact Nat.le_add_right 1 _
  | makesNone => exact Nat.add_le_add_right (Nat.zero_le 1) _
  | stopped | stopThrows =>
    rw [Back.place_resizing]
    exact Nat.add_le_add_right (Nat.zero_le 1) _
  | _ => exact Nat.le_refl _

theorem ManagerStep.standing {s : JobScheduler} {v : Member} {a : Manager.Act}
    {o : JobEffect Member} (h : ManagerStep s v a o) (one : v.place.resizing + s.standing ≤ 1) :
    o.self.place.resizing + o.shared.standing ≤ v.place.resizing + s.standing := by
  cases h with
  | works place =>
    rw [place, placeOf_resizing]
    exact Nat.le_refl _
  | finishes place | initializes place =>
    rw [place]
    exact Nat.le_refl _
  | calls place makesCalls call own step ends => exact ends.standing one

/-- The one that gives back the last reference is the one that destroys. -/
theorem letGo_standing (s : JobScheduler) {o : Observer} (back : Back) (held : 0 < s.useCount o) :
    (afterRelease s o back).resizing + (s.letGo o).standing = s.standing := by
  unfold afterRelease
  by_cases last : o = .scheduler ∧ s.useCount o = 1
  · obtain ⟨rfl, one⟩ := last
    have gone : (s.letGo .scheduler).standing = 0 := by
      apply if_neg
      rw [JobScheduler.letGo_useCount, one, if_pos rfl]
      exact Nat.lt_irrefl 0
    rw [if_pos ⟨rfl, one⟩, gone, standing_of_pos held]
    rfl
  · have more : (s.letGo o).standing = s.standing := by
      unfold JobScheduler.standing
      rw [JobScheduler.letGo_useCount]
      by_cases same : Observer.scheduler = o
      · subst same
        have others : s.useCount .scheduler ≠ 1 := fun one => last ⟨rfl, one⟩
        rw [if_pos rfl, if_pos held, if_pos (by omega)]
      · rw [if_neg same, Nat.sub_zero]
    rw [if_neg last, Back.place_resizing, Nat.zero_add, more]

theorem JobStep.standing {s : JobScheduler} {p : Place} {a : JobAct} {o : JobEffect Place}
    (h : JobStep s p a o) (counted : ∀ x, s.clientRefs x + p.holds x ≤ s.useCount x) :
    o.self.resizing + o.shared.standing ≤ p.resizing + s.standing := by
  cases h with
  | @copies ob held =>
    have live := held.trans_le (Nat.le_of_add_right_le (counted ob))
    exact (congrArg (0 + ·) (standing_of_hold live)).le
  | @drops ob held =>
    have live := held.trans_le (Nat.le_of_add_right_le (counted ob))
    exact ((letGo_standing s .client live).trans (Nat.zero_add _).symm).le
  | locks there live => exact (congrArg (0 + ·) (standing_of_hold live)).le
  | @releases job next ob raised =>
    have holds : Place.holds ob (.called job next ob raised) = 1 := if_pos rfl
    have counted := counted ob
    rw [holds] at counted
    have live : 0 < s.useCount ob := by omega
    exact ((letGo_standing s _ live).trans (Nat.zero_add _).symm).le
  | _ => exact Nat.le_refl _

section Step

variable {c c' : Config JobScheduler Member JobEvent} {mv : JobMove}

theorem oneOwner_step (h : OneOwner c) (change : JobChange c mv c') : OneOwner c' := by
  refine ⟨refsCounted_step h.refs change, ?_⟩
  have one := h.one
  have present {i : Nat} {v : Member} (here : c.threads[i]? = some v) :
      v.place.resizing ≤ total (atPlaces Place.resizing) c.threads :=
    le_total_of_getElem? (atPlaces Place.resizing) here
  cases change with
  | spurious here waits =>
    have same := jobScheduler.total_spurious (stable_atPlaces Place.resizing) here waits
    exact (congrArg (· + _) same).trans_le one
  | manager here step woken =>
    have moved := total_manager (f := Place.resizing) rfl woken here step
    have present := present here
    have standing := step.standing (by omega)
    dsimp only
    omega
  | @own i a cs v o here client step =>
    have moved := total_own Place.resizing here o.self
    have present := present here
    have standing := step.standing fun x => h.refs.le here x
    dsimp only
    omega

theorem oneOwner_newScheduler (workers pendingMax : Nat) (others : Nat → List Nat)
    (refs : Nat → Nat) (client : Nat) (clients : List Nat) :
    OneOwner (newScheduler workers pendingMax others refs client clients) where
  refs := refsCounted_newScheduler workers pendingMax others refs client clients
  one := by
    have rest :
        total (atPlaces Place.resizing) ((Manager.fresh clients).threads.map .ofThread) = 0 :=
      total_eq_zero.mpr fun v mem => by
        obtain ⟨t, -, rfl⟩ := List.mem_map.mp mem
        rfl
    unfold newScheduler
    rw [total_cons, rest]
    exact Nat.le_refl 1

theorem resizes_none {d : Manager.Call} {f : Manager.Family} {job : Nat}
    (adds : f = .add ⟨job, 0, 0⟩) (same : d.family = some f) : Manager.resizes d = 0 := by
  subst adds
  cases d <;> first | rfl | cases same

/-- A member that neither makes nor destroys the scheduler is in no call that changes the size of
the pool. -/
theorem Member.Fits.steady {v : Member} (fits : v.Fits) (other : v.place.resizing = 0) :
    Manager.resizes v.thread.call = 0 := by
  rcases fits.call with idle | same
  · rw [idle]
    rfl
  · generalize v.place = p at other same
    cases p with
    | initializing | starting | destroying => cases other
    | adding job => exact resizes_none rfl same
    | _ => rw [none_of_family same]; rfl

/-- A call that changes the size of the pool begins while no other is in progress. -/
theorem OneOwner.inTurn (h : OneOwner c) (fits : ∀ v ∈ c.threads, v.Fits) {i : Nat}
    {a : Manager.Act} {cs : List Nat} {v : Member} (moved : ManagerMove c i a cs c' v) :
    Manager.InTurn (managerPart.config c) (.run i a cs) := by
  cases a with
  | worker => trivial
  | call a =>
    intro begins
    have inner : (managerPart.config c).threads[i]? = some v.thread :=
      managerPart.getElem?_map moved.here
    have idle := (Manager.change_of_step moved.step).begins_idle begins inner
    have opens : v.place.begins c.shared a = true := by
      simpa [Member.permits, idle] using moved.permitted
    have resizing : v.place.resizing = 1 := by
      generalize v.place = p at opens
      cases p with
      | initializing | starting | destroying => rfl
      | adding => cases a <;> first | cases opens | cases begins
      | _ => cases opens
    refine total_eq_zero.mpr fun t mem => ?_
    obtain ⟨u, member, rfl⟩ := List.mem_map.mp mem
    obtain ⟨j, there⟩ := List.mem_iff_getElem?.mp member
    by_cases same : j = i
    · subst same
      obtain rfl := Option.some.inj (there.symm.trans moved.here)
      show Manager.resizes u.thread.call = 0
      rw [idle]
      rfl
    · have both : u.place.resizing + v.place.resizing ≤ total (atPlaces Place.resizing) c.threads :=
        add_le_total (atPlaces Place.resizing) same there moved.here
      have one := h.one
      exact (fits u member).steady (by omega)

end Step

/-! ## No job is lost in the queue -/

def JobEvent.discards : JobEvent → Bool
  | .manager e => e.isDiscard
  | _ => false

/-- One for a client that has not given the manager its factory yet. -/
def Place.unmade : Place → Nat
  | .initializing => 1
  | _ => 0

/-- The queue holds jobs, which never expire, and none has left it but to a worker. -/
structure JobsKept (c : Config JobScheduler Member JobEvent) : Prop where
  lasting : Manager.Lasting c.shared.impl
  alive : c.shared.impl.terminated = false
  factory : c.shared.impl.threadFactory = false → 0 < total (atPlaces Place.unmade) c.threads
  nothing : c.log.countP (fun e => e.2.discards) = 0

theorem countP_discards (es : List Manager.Event) :
    (es.map JobEvent.manager).countP JobEvent.discards = es.countP Manager.Event.isDiscard :=
  List.countP_map

theorem JobStep.discards {s : JobScheduler} {p : Place} {a : JobAct} {o : JobEffect Place}
    (h : JobStep s p a o) : o.events.countP JobEvent.discards = 0 := by
  cases h <;> rfl

theorem JobStep.made {s : JobScheduler} {p : Place} {a : JobAct} {o : JobEffect Place}
    (h : JobStep s p a o) : p.unmade = 0 := by
  cases h <;> rfl

/-- A block leaves a queue of jobs that last, and what has no factory still waits for it. -/
structure KeepsJobs (s : JobScheduler) (p : Place) (o : JobEffect Member) : Prop where
  lasting : Manager.Lasting o.shared.impl
  alive : o.shared.impl.terminated = s.impl.terminated
  factory : o.shared.impl.threadFactory = true ∨
    o.shared.impl.threadFactory = s.impl.threadFactory ∧ p.unmade = 0
  nothing : o.events.countP JobEvent.discards = 0

theorem ManagerStep.keeps_jobs {s : JobScheduler} {v : Member} {a : Manager.Act}
    {o : JobEffect Member} (h : ManagerStep s v a o) (lasting : Manager.Lasting s.impl) :
    KeepsJobs s v.place o := by
  cases h with
  | works place idle worker free step =>
    obtain ⟨lasting, ⟨alive, factory⟩, nothing⟩ := step.keeps_lasting lasting
    exact ⟨lasting, alive, .inr ⟨factory, by rw [place]; rfl⟩, (countP_discards _).trans nothing⟩
  | finishes place => exact ⟨lasting, rfl, .inr ⟨rfl, by rw [place]; rfl⟩, rfl⟩
  | initializes => exact ⟨lasting, rfl, .inl rfl, rfl⟩
  | @calls f a d o s' p place makesCalls call own step ends =>
    have ageless (r : Manager.Request) (adds : f = .add r) : r.expiration = 0 := by
      subst adds
      generalize v.place = p at place
      cases p with
      | adding => cases place; rfl
      | _ => cases place
    have made : v.place.unmade = 0 := by
      generalize v.place = p at place
      cases p <;> first | rfl | cases place
    obtain ⟨lasting, ⟨alive, factory⟩, nothing⟩ := step.keeps_lasting own ageless lasting
    have impl : s'.impl = o.shared := ends.pending.2.1
    refine ⟨?_, ?_, .inr ⟨?_, made⟩, (countP_discards _).trans nothing⟩
    · rw [impl]
      exact lasting
    · rw [impl]
      exact alive
    · rw [impl]
      exact factory

theorem jobsKept_step {c c' : Config JobScheduler Member JobEvent} {mv : JobMove} (h : JobsKept c)
    (change : JobChange c mv c') : JobsKept c' := by
  obtain ⟨lasting, alive, factory, nothing⟩ := h
  cases change with
  | spurious here waits =>
    refine ⟨lasting, alive, fun unset => (factory unset).trans_eq ?_, nothing⟩
    exact (jobScheduler.total_spurious (stable_atPlaces Place.unmade) here waits).symm
  | @manager i a cs v o ts here step woken =>
    obtain ⟨next, same, set, none⟩ := step.keeps_jobs lasting
    refine ⟨next, same.trans alive, fun unset => ?_, by rw [countP_entries, nothing, none]⟩
    have moved := total_manager (f := Place.unmade) rfl woken here step
    rcases set with made | ⟨old, made⟩
    · rw [made] at unset
      cases unset
    · have waiting := factory (old.symm.trans unset)
      dsimp only
      omega
  | @own i a cs v o here client step =>
    have impl := step.quiet.2.2
    refine ⟨?_, ?_, fun unset => ?_, by rw [countP_entries, nothing, step.discards]⟩
    · dsimp only
      rw [impl]
      exact lasting
    · dsimp only
      rw [impl]
      exact alive
    · have moved := total_own Place.unmade here o.self
      have waiting := factory (impl ▸ unset)
      have made := step.made
      dsimp only
      omega

theorem jobsKept_newScheduler (workers pendingMax : Nat) (others : Nat → List Nat)
    (refs : Nat → Nat) (client : Nat) (clients : List Nat) :
    JobsKept (newScheduler workers pendingMax others refs client clients) :=
  ⟨fun _ mem => absurd mem List.not_mem_nil, rfl, fun _ => Nat.le_add_right 1 _, rfl⟩

/-! ## The manager inside -/

/-- Its run, along which the calls that change the size of the pool take turns. -/
structure Managed
    (within : Config Manager.Impl Manager.Thread Manager.Event → Move Manager.Act → Prop)
    (clients : List Nat) (c : Config JobScheduler Member JobEvent) : Prop where
  fits : ∀ v ∈ c.threads, v.Fits
  owner : OneOwner c
  kept : JobsKept c
  inner : Manager.threadManager.Run (fun c mv => Manager.InTurn c mv ∧ within c mv)
    (Manager.fresh clients) (managerPart.config c)

theorem managed_of_run {ok : Config JobScheduler Member JobEvent → JobMove → Prop}
    {workers pendingMax : Nat} {others : Nat → List Nat} {refs : Nat → Nat} {client : Nat}
    {clients : List Nat} {c : Config JobScheduler Member JobEvent}
    (within : Config Manager.Impl Manager.Thread Manager.Event → Move Manager.Act → Prop)
    (run : jobScheduler.Run ok (newScheduler workers pendingMax others refs client clients) c)
    (inside : ∀ c i a cs, ok c (.run i (.manager a) cs) →
      within (managerPart.config c) (.run i a cs))
    (wakes : ∀ c i, within c (.spurious i)) : Managed within (client :: clients) c := by
  induction run with
  | refl =>
    refine ⟨fits_newScheduler _ _ _ _ _ _, oneOwner_newScheduler _ _ _ _ _ _,
      jobsKept_newScheduler _ _ _ _ _ _, ?_⟩
    rw [managerPart_newScheduler]
    exact .refl
  | @tail c c' mv _ allowed next ih =>
    obtain ⟨fits, owner, kept, inner⟩ := ih
    have change := jobChange_of_step fits next
    refine ⟨fits_step fits change, oneOwner_step owner change, jobsKept_step kept change, ?_⟩
    cases change with
    | @spurious i =>
      have permitted : Manager.InTurn (managerPart.config c) (.spurious i) := trivial
      exact .tail inner ⟨permitted, wakes _ i⟩ (managerPart.spurious_step next)
    | manager =>
      obtain ⟨v, moved⟩ := managerMove_of_step next
      exact .tail inner ⟨owner.inTurn fits moved, inside _ _ _ _ allowed⟩ moved.step
    | own here client step =>
      rw [config_own here step]
      exact inner

/-! ## At rest -/

section AtRest

variable {c : Config JobScheduler Member JobEvent}

/-- The manager's block of a thread that goes on is one of the scheduler's. -/
theorem managerBlock_isSome {s : JobScheduler} {v : Member} {a : Manager.Act}
    (permitted : v.permits s a = true)
    (fires : (Manager.threadManager.block s.impl v.thread a).isSome = true) :
    (managerBlock s v a).isSome = true := by
  unfold managerBlock
  rw [if_pos permitted, Option.isSome_map]
  exact fires

theorem blocked_manager (alive : c.shared.crashed = false ∧ c.shared.impl.terminated = false)
    (rests : jobScheduler.Resting Proceeds c) {v : Member} (mem : v ∈ c.threads) {a : Manager.Act}
    (permitted : v.permits c.shared a = true) :
    Manager.threadManager.block c.shared.impl v.thread a = none := by
  obtain ⟨i, here⟩ := List.mem_iff_getElem?.mp mem
  have blocked := rests.blocked here (a := .manager a) fun _ => trivial
  by_contra fires
  have some := managerBlock_isSome permitted (Option.isSome_iff_ne_none.mpr fires)
  simp only [jobScheduler, alive.1, alive.2, Bool.or_self, Bool.false_eq_true, if_false] at blocked
  rw [blocked] at some
  cases some

theorem blocked_job (alive : c.shared.crashed = false ∧ c.shared.impl.terminated = false)
    (rests : jobScheduler.Resting Proceeds c) {v : Member} (mem : v ∈ c.threads)
    (inside : v.place ≠ .outside) {a : JobAct} (own : ∀ a', a ≠ .manager a')
    (ok : ∀ i cs, Proceeds c (.run i a cs)) : jobBlock c.shared v.place a = none := by
  obtain ⟨i, here⟩ := List.mem_iff_getElem?.mp mem
  have blocked := rests.blocked here (ok i)
  have client : v.place = .outside → v.thread.worker = .absent := fun there => absurd there inside
  cases a with
  | manager a => exact absurd rfl (own a)
  | _ =>
    simp only [jobScheduler, alive.1, alive.2, Bool.or_self, Bool.false_eq_true, if_false,
      if_pos client, Option.map_eq_none_iff] at blocked
    exact blocked

theorem call_fires {s : Manager.Impl} {t : Manager.Thread} {a : Manager.CallAct}
    (alive : s.terminated = false) (makesCalls : t.worker.makesCalls = true)
    (fires : (Manager.callBlock s t.ref.id t.call a).isSome = true) :
    Manager.threadManager.block s t (.call a) ≠ none := by
  apply Option.isSome_iff_ne_none.mp
  simp only [Manager.threadManager, alive, Bool.false_eq_true, if_false, Manager.threadBlock,
    makesCalls, dif_pos, Option.isSome_map]
  exact fires

/-- The step of its own that an operation or a job takes next. -/
def Place.nextAct : Place → Option JobAct
  | .registering _ => some .search
  | .appending _ => some .append
  | .handed => some .count
  | .splitting _ => some (.split (.returned true))
  | .notifying _ _ => some .lock
  | .calling _ _ .scheduler => some .onCompletedJob
  | .calling _ _ (.other _) => some (.callOther false)
  | .called _ _ _ _ => some .release
  | _ => none

theorem no_nextAct (alive : c.shared.crashed = false ∧ c.shared.impl.terminated = false)
    (rests : jobScheduler.Resting Proceeds c) {v : Member} (mem : v ∈ c.threads) :
    v.place.nextAct = none := by
  have job {a : JobAct} (inside : v.place ≠ .outside) (own : ∀ a', a ≠ .manager a')
      (ok : ∀ i cs, Proceeds c (.run i a cs)) := blocked_job alive rests mem inside own ok
  generalize v.place = p at job
  cases p with
  | outside | initializing | starting | adding | finished | destroying => rfl
  | registering => exact absurd (job (a := .search) nofun nofun fun _ _ => trivial) nofun
  | appending => exact absurd (job (a := .append) nofun nofun fun _ _ => trivial) nofun
  | handed => exact absurd (job (a := .count) nofun nofun fun _ _ => trivial) nofun
  | splitting =>
    exact absurd (job (a := .split (.returned true)) nofun nofun fun _ _ => trivial) nofun
  | notifying => exact absurd (job (a := .lock) nofun nofun fun _ _ => trivial) nofun
  | calling job' next o =>
    cases o with
    | scheduler => exact absurd (job (a := .onCompletedJob) nofun nofun fun _ _ => trivial) nofun
    | other => exact absurd (job (a := .callOther false) nofun nofun fun _ _ => trivial) nofun
  | called => exact absurd (job (a := .release) nofun nofun fun _ _ => trivial) nofun

/-- Nobody is about to begin a call of the manager. -/
theorem no_begins (alive : c.shared.crashed = false ∧ c.shared.impl.terminated = false)
    (rests : jobScheduler.Resting Proceeds c) {v : Member} (mem : v ∈ c.threads) (fits : v.Fits)
    (inside : v.place ≠ .outside) (idle : v.thread.call = .none) {a : Manager.CallAct}
    (opens : v.place.begins c.shared a = true) :
    Manager.callBlock c.shared.impl v.thread.ref.id .none a = none := by
  have calls : v.thread.worker.makesCalls = true := by
    rcases fits.busy inside with worker | ⟨t, worker⟩ <;> rw [worker] <;> rfl
  have permitted : v.permits c.shared (.call a) = true := by simp [Member.permits, opens]
  by_contra fires
  refine call_fires alive.2 calls ?_ (blocked_manager alive rests mem permitted)
  rw [idle]
  exact Option.isSome_iff_ne_none.mpr fires

theorem made_at_rest (alive : c.shared.crashed = false ∧ c.shared.impl.terminated = false)
    (rests : jobScheduler.Resting Proceeds c) (fits : ∀ v ∈ c.threads, v.Fits) (kept : JobsKept c) :
    c.shared.impl.threadFactory = true := by
  by_contra unset
  obtain ⟨_, v, here, waiting⟩ := exists_of_total_pos (kept.factory (Bool.not_eq_true _ ▸ unset))
  have mem := List.mem_of_getElem? here
  have place : v.place = .initializing := by
    unfold atPlaces at waiting
    generalize v.place = p at waiting
    cases p <;> first | rfl | cases waiting
  have idle := (fits v mem).call
  rw [place] at idle
  have idle := idle.elim id none_of_family
  have opens : v.place.begins c.shared (.setThreadFactory true) = true := by rw [place]; rfl
  cases no_begins alive rests mem (fits v mem) (by rw [place]; exact nofun) idle opens

/-- A thread of a scheduler at rest is in no operation, or waits in a call of the manager. -/
theorem place_at_rest (alive : c.shared.crashed = false ∧ c.shared.impl.terminated = false)
    (rests : jobScheduler.Resting Proceeds c) (fits : ∀ v ∈ c.threads, v.Fits) (kept : JobsKept c)
    {v : Member} (mem : v ∈ c.threads) : v.place = .outside ∨ v.thread.call ≠ .none := by
  by_contra inside
  simp only [not_or, not_not] at inside
  obtain ⟨inside, idle⟩ := inside
  have ends {a : Manager.CallAct} := no_begins (a := a) alive rests mem (fits v mem) inside idle
  have none := no_nextAct alive rests mem
  cases place : v.place with
  | outside => exact inside place
  | initializing => cases ends (a := .setThreadFactory true) (by rw [place]; rfl)
  | starting =>
    have opens : v.place.begins c.shared
        (.start (some (c.shared.numWorkers, c.shared.pendingJobMaxCount))) = true := by
      rw [place]
      exact beq_self_eq_true _
    cases ends opens
  | adding job =>
    have opens : v.place.begins c.shared (.add ⟨job, 0, 0⟩ ⟨fun _ => 0, .none⟩ 0) = true := by
      rw [place]
      exact beq_self_eq_true _
    have blocked := ends opens
    rw [Manager.callBlock, made_at_rest alive rests fits kept, Bool.true_or, if_pos rfl] at blocked
    cases blocked
  | destroying => cases ends (a := .stop false) (by rw [place]; rfl)
  | finished raised =>
    have permitted : v.permits c.shared (.worker (.finish raised)) = true := by
      simp [Member.permits, place]
    have blocked := blocked_manager alive rests mem permitted
    have worker := (fits v mem).worker
    rw [place] at worker
    obtain ⟨t, running⟩ := worker
    simp [Manager.threadManager, alive.2, Manager.threadBlock, idle, running, Manager.workerBlock]
      at blocked
  | calling job next o =>
    rw [place] at none
    cases o <;> cases none
  | _ =>
    rw [place] at none
    cases none

/-- The manager inside is at rest too. -/
theorem managerPart_at_rest (alive : c.shared.crashed = false ∧ c.shared.impl.terminated = false)
    (rests : jobScheduler.Resting Proceeds c) (fits : ∀ v ∈ c.threads, v.Fits) (kept : JobsKept c) :
    Manager.threadManager.Resting Manager.Continues (managerPart.config c) := by
  refine Manager.resting_iff.mpr (.inr fun t mem => ?_)
  obtain ⟨v, member, rfl⟩ := List.mem_map.mp mem
  show Manager.Thread.still c.shared.impl v.thread = true
  by_contra moves
  have blocked {a : Manager.Act} := blocked_manager (a := a) alive rests member
  cases Manager.moves_of_not_still alive.2 (Bool.not_eq_true _ ▸ moves) with
  | @call a begun fires =>
    have permitted : v.permits c.shared (.call a) = true := by
      simp only [Member.permits, bne_iff_ne.mpr begun, Bool.true_or]
    rw [blocked permitted] at fires
    cases fires
  | @worker a idle fires =>
    have outside := (place_at_rest alive rests fits kept member).resolve_right (not_not.mpr idle)
    have free := (fits v member).worker
    rw [outside] at free
    have permitted : v.permits c.shared (.worker a) = true := by
      cases a with
      | finish raised =>
        simp only [Manager.threadManager, alive.2, Bool.false_eq_true, if_false,
          Manager.threadBlock, dif_pos idle, Option.isSome_map] at fires
        obtain ⟨o, block⟩ := Option.isSome_iff_exists.mp fires
        have step := Manager.workerStep_of_block block
        generalize v.thread.worker = w at step free
        cases step
        exact absurd rfl (free _)
      | _ => rfl
    rw [blocked permitted] at fires
    cases fires

/-- A thread is at rest that is outside of everything, and whose worker is. -/
theorem resting_of_outside (still : ∀ v ∈ c.threads,
    v.place = .outside ∧ v.thread.call = .none ∧ v.thread.worker.still = true) :
    jobScheduler.Resting Proceeds c := by
  intro mv c' ok step
  cases step with
  | spurious => exact ok
  | @run i a cs v o ts here fires delivered =>
    obtain ⟨outside, idle, still⟩ := still v (List.mem_of_getElem? here)
    rcases (jobScheduler_block fires).2 with ⟨a', rfl, block⟩ | ⟨-, o', own, -⟩
    · unfold managerBlock at block
      split at block
      · obtain ⟨o', runs, -⟩ := Option.map_eq_some_iff.mp block
        cases a' with
        | worker a =>
          simp [Manager.threadManager, Manager.threadBlock, idle,
            Manager.block_worker_of_still still] at runs
        | call a =>
          rename_i permitted
          simp [Member.permits, idle, outside, Place.begins] at permitted
      · cases block
    · rw [outside] at own
      cases own <;> exact ok

/-- With the destructor left to clients, no worker waits in a call of the manager. -/
theorem TeardownAccount.tasksReturn (h : TeardownAccount c) :
    Manager.TasksReturn (managerPart.config c) := by
  intro t mem
  obtain ⟨v, member, rfl⟩ := List.mem_map.mp mem
  show v.thread.worker = .absent ∨ v.thread.call = .none
  rcases (h.fits v member).call with idle | same
  · exact .inr idle
  · have worker := (h.fits v member).worker
    have absent := h.absent v member
    generalize v.place = p at same worker absent
    cases p with
    | starting | adding => exact .inl worker
    | destroying => exact .inl (absent rfl)
    | _ => exact .inr (none_of_family same)

/-- No job at rest has been handed over without being counted. -/
theorem handed_at_rest {v : Member} (fits : v.Fits)
    (place : v.place = .outside ∨ v.thread.call ≠ .none) :
    atPlaces Place.uncounted v = 0 := by
  have call := fits.call
  unfold atPlaces
  generalize v.place = p at call place
  cases p with
  | handed =>
    have busy := place.resolve_left fun outside => by cases outside
    exact absurd (call.elim id none_of_family) busy
  | _ => rfl

/-- With an empty queue and no task in the hands of a worker, every job accepted was executed. -/
theorem executed_at_rest {clients : List Nat} (kept : JobsKept c)
    (inner : Manager.threadManager.Reach (Manager.fresh clients) (managerPart.config c))
    (empty : c.shared.impl.tasks = [])
    (still : ∀ t ∈ (managerPart.config c).threads,
      t.worker = .absent ∨ t.worker = .parked ∨ t.worker = .finished) :
    executed c = accepted c := by
  have balanced := Manager.tasksBalanced_of_reach inner
  unfold Manager.TasksBalanced at balanced
  rw [managerPart.countP_log (q := JobEvent.executes) (fun e => by cases e <;> rfl),
    managerPart.countP_log (q := JobEvent.discards) (fun e => by cases e <;> rfl),
    managerPart.countP_log (q := JobEvent.accepts) (fun e => by cases e <;> rfl),
    kept.nothing] at balanced
  have hands : total Manager.inHand (managerPart.config c).threads = 0 := by
    apply total_eq_zero.mpr
    intro t mem
    rcases still t mem with place | place | place <;>
      simp [Manager.inHand, Manager.Thread.held, Manager.Thread.running, place,
        Manager.Worker.hands]
  have queue : (managerPart.config c).shared.tasks.length = 0 := List.length_eq_zero_iff.mpr empty
  unfold executed accepted
  omega

end AtRest

/-! ## Operations come back -/

/-- A client gives back the last reference while no worker holds one, threads can be created,
and no more workers leave than are to leave. -/
def Closes (c : Config JobScheduler Member JobEvent) (mv : JobMove) : Prop :=
  OutlivesWorkers c mv ∧
    match mv with
    | .run i (.manager a) cs => Manager.LeavesCleanly (managerPart.config c) (.run i a cs)
    | _ => True

instance (c : Config JobScheduler Member JobEvent) (mv : JobMove) : Decidable (Closes c mv) := by
  unfold Closes
  split <;> infer_instance

/-- The thread is out of every operation of the scheduler, and its worker waits for a job or is
gone. -/
structure Member.Out (v : Member) : Prop where
  place : v.place = .outside
  call : v.thread.call = .none
  worker : v.thread.worker = .absent ∨ v.thread.worker = .parked ∨ v.thread.worker = .finished

theorem teardownAccount_of_run {workers pendingMax : Nat} {others : Nat → List Nat}
    {refs : Nat → Nat} {client : Nat} {clients : List Nat}
    {c : Config JobScheduler Member JobEvent}
    (run : jobScheduler.Run OutlivesWorkers
      (newScheduler workers pendingMax others refs client clients) c) : TeardownAccount c :=
  run.invariant (teardownAccount_newScheduler workers pendingMax others refs client clients)
    fun h ok step => teardownAccount_step h ok (jobChange_of_step h.fits step)

/-- The client drops its reference, and its destructor waits for the worker to leave. -/
def dropAndReturn : List JobMove :=
  makeScheduler 1 ++ dropAndStop ++
    [byWorker 1 (.iterate ⟨fun _ => 0, none⟩), .run 1 (.manager (.worker .exit)) [0],
      byCaller 0 .awaitRemoved, byCaller 0 .finishStop]

/-- The worker that has run the job parks again. -/
def reportAndPark : List JobMove := splitAndReport ++ [byWorker 1 (.iterate ⟨fun _ => 0, none⟩)]

end Threads.Splitter
