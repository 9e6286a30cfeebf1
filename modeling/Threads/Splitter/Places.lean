import Threads.Splitter.Jobs

/-!
# Where the threads of a scheduler stand

The place of a thread in the operations of the scheduler and its place in the thread
manager belong together: a job is run by a worker, `Add`, `Start` and `Stop` are called
by the operation that is in progress and by no other.
-/

namespace Threads.Manager

/-- What a call of the thread manager was made for. -/
inductive Family where
  | start
  | stop
  | add (r : Request)
  deriving DecidableEq

def Call.family : Call → Option Family
  | .none => .none
  | .removeWorker _ _ | .awaitRemoved _ | .removedParked _ | .stopImpl _ | .readCount _ |
      .finishStop _ _ => some .stop
  | .addParked r | .addWoken r => some (.add r)
  | _ => some .start

def CallAct.family : CallAct → Option Family
  | .start _ | .addWorker _ => some .start
  | .stop _ | .removeWorker _ => some .stop
  | .add r _ _ | .addGuardFails r => some (.add r)
  | _ => none

@[simp] theorem Call.family_wake (d : Call) : d.wake.family = d.family := by
  cases d <;> rfl

/-- A call goes on with what it was made for until it is over. -/
theorem CallStep.stays {s : Impl} {id : Nat} {d : Call} {a : CallAct} {o : Effect Call}
    (h : CallStep s id d a o) {f : Family} (own : d.family.or a.family = some f) :
    o.self = .none ∨ o.self.family = some f := by
  have started (workers : Option Nat) :
      Call.afterStart workers = .none ∨ (Call.afterStart workers).family = some .start := by
    cases workers
    · exact .inl rfl
    · exact .inr rfl
  cases h with
  | @started workers =>
    cases own
    exact started workers
  | @startAgain workers | @resumeStart workers =>
    cases own
    unfold startWaitBlock
    split
    · exact .inr rfl
    · exact started workers
  | @raise objects | @register _ objects =>
    cases own
    cases objects <;> exact .inr rfl
  | @startThread _ _ created =>
    cases own
    cases created <;> exact .inr rfl
  | @removed caller =>
    cases own
    cases caller
    · exact .inl rfl
    · exact .inr rfl
  | remove | removeNextPending => cases own
  | _ => cases own <;> first | exact .inl rfl | exact .inr rfl

def Event.isPush : Event → Bool
  | .pushed _ => true
  | _ => false

/-- `Start` and `Stop` leave the queue alone. -/
theorem CallStep.pushes_nothing {s : Impl} {id : Nat} {d : Call} {a : CallAct} {o : Effect Call}
    (h : CallStep s id d a o) {f : Family} (own : d.family.or a.family = some f)
    (other : ∀ r, f ≠ .add r) : o.events.countP Event.isPush = 0 ∧ o.shared.tasks = s.tasks := by
  have started (workers : Option Nat) : (startedEvents workers).countP Event.isPush = 0 := by
    cases workers <;> rfl
  cases h with
  | @started workers => exact ⟨started workers, rfl⟩
  | @startAgain workers | @resumeStart workers =>
    unfold startWaitBlock
    split
    · exact ⟨rfl, rfl⟩
    · exact ⟨started workers, rfl⟩
  | @startThread _ _ created => cases created <;> exact ⟨rfl, rfl⟩
  | @removed caller => cases caller <;> exact ⟨rfl, rfl⟩
  | addRefused | addRaised | addParks | addTooMany | adds | guardFails | resumesFull |
      resumesAndAdds | timesOut =>
    cases own
    exact absurd rfl (other _)
  | remove | removeNextPending | removeExpiredTasks | setExpireCallback | setThreadFactory |
      expiredTaskCount => cases own
  | _ => exact ⟨rfl, rfl⟩

/-- What a block of `Add(job)` comes to. -/
inductive AddsJob (s : Impl) (job : Nat) (o : Effect Call) : Prop
  | refused (ended : o.self = .none) (fails : Splitter.threw o.events = true)
      (pushes : o.events.countP Event.isPush = 0) (tasks : ∀ t ∈ o.shared.tasks, t ∈ s.tasks)
  | waits (busy : o.self ≠ .none) (pushes : o.events.countP Event.isPush = 0)
      (tasks : ∀ t ∈ o.shared.tasks, t ∈ s.tasks)
  | added (ended : o.self = .none) (returns : Splitter.threw o.events = false)
      (pushes : o.events.countP Event.isPush = 1)
      (tasks : ∀ t ∈ o.shared.tasks, t ∈ s.tasks ∨ t.runnable = job)

theorem expiry_noPush (s : Impl) (env : Surroundings) :
    (s.expiryEvents env).countP Event.isPush = 0 := by
  rw [List.countP_eq_zero]
  intro e mem
  rcases Impl.mem_expiryEvents mem with ⟨t, rfl⟩ | ⟨t, callback, rfl⟩ <;> exact nofun

theorem threw_expiry (s : Impl) (env : Surroundings) :
    Splitter.threw (s.expiryEvents env) = false := by
  unfold Splitter.threw
  rw [List.any_eq_false]
  intro e mem
  rcases Impl.mem_expiryEvents mem with ⟨t, rfl⟩ | ⟨t, callback, rfl⟩ <;> exact nofun

theorem CallStep.adding {s : Impl} {id : Nat} {d : Call} {a : CallAct} {o : Effect Call}
    (h : CallStep s id d a o) {job : Nat} (own : d.family.or a.family = some (.add ⟨job, 0, 0⟩)) :
    AddsJob s job o := by
  have kept (env : Surroundings) : ∀ t ∈ (s.removeExpiredTasks env).tasks, t ∈ s.tasks :=
    fun t mem => removeExpiredTasks_tasks s env ▸ List.mem_append_right _ mem
  have push (s' : Impl) (now : Int) (old : ∀ t ∈ s'.tasks, t ∈ s.tasks) :
      ∀ t ∈ (pushed s' ⟨job, 0, 0⟩ now).tasks, t ∈ s.tasks ∨ t.runnable = job := by
    intro t mem
    rcases List.mem_append.mp mem with mem | mem
    · exact .inl (old t mem)
    · right
      rw [List.mem_singleton.mp mem]
      rfl
  have joined (env : Surroundings) (es : List Event) :
      (s.expiryEvents env ++ es).countP Event.isPush = es.countP Event.isPush ∧
        Splitter.threw (s.expiryEvents env ++ es) = Splitter.threw es := by
    have calm := threw_expiry s env
    unfold Splitter.threw at calm ⊢
    rw [List.countP_append, expiry_noPush, List.any_append, calm]
    exact ⟨Nat.zero_add _, rfl⟩
  cases h with
  | addRefused => exact .refused rfl rfl rfl fun _ mem => mem
  | @addRaised r env now | @addTooMany r env now =>
    exact .refused rfl ((joined env _).2.trans rfl) ((joined env _).1.trans rfl) (kept env)
  | @addParks r env now => exact .waits nofun (expiry_noPush s env) (kept env)
  | @adds r env now =>
    cases own
    exact .added rfl ((joined env _).2.trans rfl) ((joined env _).1.trans rfl)
      (push _ now (kept env))
  | guardFails timed =>
    cases own
    exact absurd rfl timed
  | timesOut timed =>
    cases own
    exact absurd timed (Int.lt_irrefl 0)
  | resumesFull => exact .waits nofun rfl fun _ mem => mem
  | @resumesAndAdds r now =>
    cases own
    exact .added rfl rfl rfl (push s now fun _ mem => mem)
  | _ => cases own

/-- The task in a worker's hands. -/
def Worker.task : Worker → Option Task
  | .holding t | .running t => some t
  | _ => none

/-- A worker's tasks come off the queue. -/
theorem WorkerStep.task {s : Impl} {ref : ThreadRef} {w : Worker} {a : WorkerAct}
    {o : Effect Worker} (h : WorkerStep s ref w a o) {t : Task} (hand : o.self.task = some t) :
    (∃ u ∈ s.tasks, u.runnable = t.runnable) ∨ w.task = some t := by
  have working (s : Impl) (env : Surroundings) (hand : (workBlock s env).self.task = some t) :
      ∃ u ∈ s.tasks, u.runnable = t.runnable := by
    unfold workBlock at hand
    dsimp only at hand
    split at hand
    · cases hand
    · split at hand
      · cases hand
      · rename_i u rest queue
        obtain rfl : u.begin = t := Option.some.inj hand
        have mem : u ∈ (s.removeExpiredTasks env).tasks := queue ▸ List.mem_cons_self
        refine ⟨u, removeExpiredTasks_tasks s env ▸ List.mem_append_right _ mem, ?_⟩
        unfold Task.begin
        split <;> rfl
  cases h with
  | enters =>
    dsimp only at hand
    split at hand <;> cases hand
  | works => exact .inl (working s _ hand)
  | wakesAndWorks => exact .inl (working { s with idleCount := decrement s.idleCount } _ hand)
  | ran => exact .inr hand
  | _ => cases hand

theorem WorkerStep.queue {s : Impl} {ref : ThreadRef} {w : Worker} {a : WorkerAct}
    {o : Effect Worker} (h : WorkerStep s ref w a o) : ∀ t ∈ o.shared.tasks, t ∈ s.tasks := by
  have working (s : Impl) (env : Surroundings) :
      ∀ t ∈ (workBlock s env).shared.tasks, t ∈ s.tasks := by
    obtain ⟨tasks, _, _, suffix, eq⟩ := workBlock_shared s env
    rw [eq]
    exact fun t mem => suffix.subset mem
  cases h with
  | works => exact working s _
  | wakesAndWorks => exact working { s with idleCount := decrement s.idleCount } _
  | _ => exact fun t mem => mem

def Event.isFinish : Event → Bool
  | .finished _ _ => true
  | _ => false

/-- Only a worker that runs a task finishes one. -/
theorem WorkerStep.finishes_nothing {s : Impl} {ref : ThreadRef} {w : Worker} {a : WorkerAct}
    {o : Effect Worker} (h : WorkerStep s ref w a o) (free : ∀ t, w ≠ .running t) :
    o.events.countP Event.isFinish = 0 := by
  have expiry (s : Impl) (env : Surroundings) : (s.expiryEvents env).countP Event.isFinish = 0 := by
    rw [List.countP_eq_zero]
    intro e mem
    rcases Impl.mem_expiryEvents mem with ⟨t, rfl⟩ | ⟨t, callback, rfl⟩ <;> exact nofun
  have working (s : Impl) (env : Surroundings) :
      (workBlock s env).events.countP Event.isFinish = 0 := by
    unfold workBlock
    dsimp only
    split
    · exact expiry s env
    · split
      · exact expiry s env
      · rw [List.countP_append, expiry]
        rfl
  cases h with
  | works | wakesAndWorks => exact working _ _
  | done => exact absurd rfl (free _)
  | _ => rfl

theorem WorkerStep.pushes_nothing {s : Impl} {ref : ThreadRef} {w : Worker} {a : WorkerAct}
    {o : Effect Worker} (h : WorkerStep s ref w a o) : o.events.countP Event.isPush = 0 := by
  rw [List.countP_eq_zero]
  intro e mem
  have worker := h.events e mem
  cases e with
  | pushed => cases worker
  | _ => exact nofun

theorem CallStep.finishes_nothing {s : Impl} {id : Nat} {d : Call} {a : CallAct} {o : Effect Call}
    (h : CallStep s id d a o) : o.events.countP Event.isFinish = 0 := by
  rw [List.countP_eq_zero]
  intro e mem
  have report := h.reports mem
  cases e with
  | finished => exact report.elim
  | _ => exact nofun

end Threads.Manager

namespace Threads.Splitter

open Concurrency

/-- What the operation in progress has called its thread manager for. -/
def Place.family : Place → Option Manager.Family
  | .starting => some .start
  | .adding job => some (.add ⟨job, 0, 0⟩)
  | .destroying _ => some .stop
  | _ => none

/-- The worker runs this job. -/
def RunsJob (job : Nat) (w : Manager.Worker) : Prop := ∃ t, w = .running t ∧ t.runnable = job

def Back.hosts : Back → Manager.Worker → Prop
  | .client, w => w = .absent
  | .notify job _, w => RunsJob job w
  | .finish, w => ∃ t, w = .running t

/-- Who can stand at a place: clients in the operations of the scheduler, workers in
those of a job. -/
def Place.hosts : Place → Manager.Worker → Prop
  | .outside, w => ∀ t, w ≠ .running t
  | .splitting job, w | .notifying job _, w | .calling job _ _, w | .called job _ _ _, w =>
    RunsJob job w
  | .finished _, w => ∃ t, w = .running t
  | .destroying back, w => back.hosts w
  | _, w => w = .absent

structure Member.Fits (v : Member) : Prop where
  call : v.thread.call = .none ∨ v.thread.call.family = v.place.family
  worker : v.place.hosts v.thread.worker

/-- What a block of a call of the thread manager does to the operation around it: the
call goes on, or `Start`, `Add` or `Stop` is over. -/
inductive CallEnds (s : JobScheduler) (o : Manager.Effect Manager.Call) :
    Place → JobScheduler → Place → Prop
  | goesOn {p} (busy : o.self ≠ .none) : CallEnds s o p s p
  | makes (ended : o.self = .none) (returns : threw o.events = false) :
      CallEnds s o .starting ((s.hold .scheduler).keep .scheduler) .outside
  | makesNone (ended : o.self = .none) (fails : threw o.events = true) :
      CallEnds s o .starting s .outside
  | refused {job} (ended : o.self = .none) (fails : threw o.events = true) :
      CallEnds s o (.adding job) (s.keep .scheduler) .outside
  | added {job} (ended : o.self = .none) (returns : threw o.events = false) :
      CallEnds s o (.adding job) s .handed
  | stopped {back} (ended : o.self = .none) (returns : threw o.events = false) :
      CallEnds s o (.destroying back) s back.place
  | stopThrows {back} (ended : o.self = .none) (fails : threw o.events = true) :
      CallEnds s o (.destroying back) { s with crashed := true } back.place

theorem callEnds (s : JobScheduler) (o : Manager.Effect Manager.Call) (t : Manager.Thread)
    (same : t.call = o.self) {p : Place} {f : Manager.Family} (h : p.family = some f) :
    CallEnds s o p (s.next t o.events p) (p.next t o.events) := by
  by_cases idle : t.call = .none
  · have ended := same.symm.trans idle
    cases fails : threw o.events
    · cases p with
      | starting =>
        simp only [JobScheduler.next, Place.next, idle, fails, and_self, if_true]
        exact .makes ended fails
      | adding job =>
        simp only [JobScheduler.next, Place.next, idle, fails, Bool.false_eq_true, and_false,
          if_false, if_true]
        exact .added ended fails
      | destroying back =>
        simp only [JobScheduler.next, Place.next, idle, fails, Bool.false_eq_true, and_false,
          if_false, if_true]
        exact .stopped ended fails
      | _ => cases h
    · cases p with
      | starting =>
        simp only [JobScheduler.next, Place.next, idle, fails, Bool.true_eq_false, and_false,
          if_false, if_true]
        exact .makesNone ended fails
      | adding job =>
        simp only [JobScheduler.next, Place.next, idle, fails, and_self, if_true]
        exact .refused ended fails
      | destroying back =>
        simp only [JobScheduler.next, Place.next, idle, fails, and_self, if_true]
        exact .stopThrows ended fails
      | _ => cases h
  · have busy : o.self ≠ .none := fun none => idle (same.trans none)
    cases p with
    | starting | adding | destroying =>
      simp only [JobScheduler.next, Place.next, idle, false_and, if_false]
      exact .goesOn busy
    | _ => cases h

/-- What a block of the thread manager can be, by the place of its thread. -/
inductive ManagerStep (s : JobScheduler) (v : Member) : Manager.Act → JobEffect Member → Prop
  | works {a w o} (place : v.place = .outside) (idle : v.thread.call = .none)
      (worker : v.thread.worker = w) (free : ∀ t, w ≠ .running t)
      (step : Manager.WorkerStep s.impl v.thread.ref w a o) :
      ManagerStep s v (.worker a)
        { shared := { s with impl := o.shared }
          self := { thread := v.thread.withWorker idle o.self, place := placeOf o.self }
          signals := o.signals
          events := o.events.map .manager }
  | finishes {t raised} (place : v.place = .finished raised) (idle : v.thread.call = .none)
      (worker : v.thread.worker = .running t) :
      ManagerStep s v (.worker (.finish raised))
        { shared := s
          self := { thread := v.thread.withWorker idle .loop, place := .outside }
          events := [.manager (.finished t.id raised)] }
  | initializes (place : v.place = .initializing) (makesCalls : v.thread.worker.makesCalls = true) :
      ManagerStep s v (.call (.setThreadFactory true))
        { shared := { s with impl := { s.impl with threadFactory := true } }
          self := { thread := v.thread.withCall makesCalls .none, place := .starting } }
  | calls {f a d o s' p} (place : v.place.family = some f)
      (makesCalls : v.thread.worker.makesCalls = true) (call : v.thread.call = d)
      (own : d.family.or a.family = some f)
      (step : Manager.CallStep s.impl v.thread.ref.id d a o)
      (ends : CallEnds { s with impl := o.shared } o v.place s' p) :
      ManagerStep s v (.call a)
        { shared := s'
          self := { thread := v.thread.withCall makesCalls o.self, place := p }
          signals := o.signals
          spawned := o.spawned.map .ofThread
          events := o.events.map .manager }

theorem Member.Fits.busy {v : Member} (h : v.Fits) (inside : v.place ≠ .outside) :
    v.thread.worker = .absent ∨ ∃ t, v.thread.worker = .running t := by
  have worker := h.worker
  generalize v.place = p at worker inside
  cases p with
  | outside => exact absurd rfl inside
  | splitting | notifying | calling | called =>
    obtain ⟨t, running, -⟩ := worker
    exact .inr ⟨t, running⟩
  | finished => exact .inr worker
  | destroying back =>
    cases back with
    | client => exact .inl worker
    | notify =>
      obtain ⟨t, running, -⟩ := worker
      exact .inr ⟨t, running⟩
    | finish => exact .inr worker
  | _ => exact .inl worker

/-- The operation that a place begins is the one it is in. -/
theorem Place.begins_family {s : JobScheduler} {p : Place} {a : Manager.CallAct}
    (h : p.begins s a = true) :
    (p = .initializing ∧ a = .setThreadFactory true) ∨
      ∃ f, p.family = some f ∧ a.family = some f := by
  unfold Place.begins at h
  split at h
  · exact .inl ⟨rfl, by rw [h]⟩
  · exact .inr ⟨_, rfl, rfl⟩
  · rename_i job r _ _
    obtain rfl : r = ⟨job, 0, 0⟩ := by simpa using h
    exact .inr ⟨_, rfl, rfl⟩
  · exact .inr ⟨_, rfl, rfl⟩
  · cases h

theorem none_of_family {d : Manager.Call} (h : d.family = none) : d = .none := by
  cases d <;> first | rfl | cases h

/-- A call goes on, or the operation in progress begins it. -/
theorem Member.Fits.within {s : JobScheduler} {v : Member} {a : Manager.CallAct} (fits : v.Fits)
    (permitted : v.permits s (.call a) = true) :
    (v.place = .initializing ∧ a = .setThreadFactory true) ∨
      ∃ f, v.place.family = some f ∧ v.thread.call.family.or a.family = some f := by
  simp only [Member.permits, Bool.or_eq_true, bne_iff_ne, ne_eq] at permitted
  by_cases idle : v.thread.call = .none
  · rcases Place.begins_family (permitted.resolve_left (not_not.mpr idle)) with
      first | ⟨f, place, own⟩
    · exact .inl first
    · exact .inr ⟨f, place, by rw [idle]; exact own⟩
  · have same := fits.call.resolve_left idle
    cases place : v.place.family with
    | none => exact absurd (none_of_family (same.trans place)) idle
    | some f => exact .inr ⟨f, rfl, by rw [same, place]; rfl⟩

theorem managerStep_of_block {s : JobScheduler} {v : Member} {a : Manager.Act}
    {o : JobEffect Member} (fits : v.Fits) (h : managerBlock s v a = some o) :
    ManagerStep s v a o := by
  unfold managerBlock at h
  split at h
  · rename_i permitted
    obtain ⟨o', fires, rfl⟩ := Option.map_eq_some_iff.mp h
    simp only [Manager.threadManager] at fires
    split at fires
    · cases fires
    · cases a with
      | worker a =>
        simp only [Manager.threadBlock] at fires
        split at fires
        · rename_i idle
          obtain ⟨o, block, rfl⟩ := Option.map_eq_some_iff.mp fires
          have step := Manager.workerStep_of_block block
          by_cases inside : v.place = .outside
          · have free := fits.worker
            rw [inside] at free
            simp only [inside, Outcome.mapSelf, step.spawned, List.map_nil]
            exact .works inside idle rfl free step
          · rcases fits.busy inside with worker | ⟨t, worker⟩
            · rw [worker] at step
              cases step
            · rw [worker] at step
              cases step with
              | @done _ raised =>
                have place : v.place = .finished raised := by simpa [Member.permits] using permitted
                simp only [place, Outcome.mapSelf, List.map_nil]
                exact .finishes place idle worker
        · cases fires
      | call a =>
        simp only [Manager.threadBlock] at fires
        split at fires
        · rename_i makesCalls
          obtain ⟨o, block, rfl⟩ := Option.map_eq_some_iff.mp fires
          have step := Manager.callStep_of_block block
          rcases fits.within permitted with ⟨place, rfl⟩ | ⟨f, place, own⟩
          · generalize v.thread.call = d at step
            cases step
            simp only [place, Outcome.mapSelf, List.map_nil]
            exact .initializes place makesCalls
          · exact .calls place makesCalls rfl own step (callEnds _ o _ rfl place)
        · cases fires
  · cases h

/-- A step is a spurious wakeup, a block of the thread manager, or one of the scheduler
and its jobs. -/
inductive JobChange (c : Config JobScheduler Member JobEvent) :
    Move JobAct → Config JobScheduler Member JobEvent → Prop
  | spurious {i v} (here : c.threads[i]? = some v) (waits : v.thread.waitsOn ≠ none) :
      JobChange c (.spurious i) { c with threads := c.threads.set i v.wake }
  | manager {i a cs v o ts} (here : c.threads[i]? = some v) (step : ManagerStep c.shared v a o)
      (woken : jobScheduler.Woken c.threads ts) :
      JobChange c (.run i (.manager a) cs)
        ⟨o.shared, ts.set i o.self ++ o.spawned, c.log ++ o.events.map (Prod.mk i)⟩
  | own {i a cs v o} (here : c.threads[i]? = some v)
      (client : v.place = .outside → v.thread.worker = .absent)
      (step : JobStep c.shared v.place a o) :
      JobChange c (.run i a cs)
        ⟨o.shared, c.threads.set i (v.atPlace o.self), c.log ++ o.events.map (Prod.mk i)⟩

theorem jobChange_of_step {c c' : Config JobScheduler Member JobEvent} {mv : Move JobAct}
    (fits : ∀ v ∈ c.threads, v.Fits) (h : jobScheduler.Step c mv c') : JobChange c mv c' := by
  cases h with
  | spurious here waits => exact .spurious here waits
  | @run i a cs v o ts here fires delivered =>
    rcases (jobScheduler_block fires).2 with ⟨a', rfl, block⟩ | ⟨client, o', step, rfl⟩
    · have own := fits v (List.mem_of_getElem? here)
      exact .manager here (managerStep_of_block own block) (jobScheduler.deliver_woken delivered)
    · obtain ⟨silent, childless, -⟩ := step.quiet
      simp only [Outcome.mapSelf, silent] at delivered
      obtain rfl := Option.some.inj delivered
      simp only [Outcome.mapSelf, childless, List.append_nil]
      exact .own here client step

/-! ## Every thread fits its place -/

theorem placeOf_hosts (w : Manager.Worker) : (placeOf w).hosts w := by
  cases w with
  | running t => exact ⟨t, rfl, rfl⟩
  | _ => exact fun _ => nofun

theorem Back.place_hosts {back : Back} {w : Manager.Worker} (h : back.hosts w) :
    back.place.hosts w := by
  cases back with
  | client =>
    obtain rfl : w = .absent := h
    exact fun _ => nofun
  | notify | finish => exact h

theorem afterRelease_hosts {s : JobScheduler} {o : Observer} {back : Back} {w : Manager.Worker}
    (h : back.hosts w) : (afterRelease s o back).hosts w := by
  unfold afterRelease
  split
  · exact h
  · exact Back.place_hosts h

/-- A thread that has just been started is a worker outside of everything. -/
theorem ManagerStep.spawned {s : JobScheduler} {v : Member} {a : Manager.Act}
    {o : JobEffect Member} (h : ManagerStep s v a o) :
    ∀ u ∈ o.spawned, ∃ ref, u = .ofThread { ref := ref, worker := .entry } := by
  cases h with
  | calls place makesCalls call own step ends =>
    intro u mem
    obtain ⟨t, started, rfl⟩ := List.mem_map.mp mem
    rcases step.spawned with none | ⟨ref, one⟩
    · rw [none] at started
      cases started
    · rw [one] at started
      exact ⟨ref, by rw [List.mem_singleton.mp started]⟩
  | _ => exact fun u mem => absurd mem List.not_mem_nil

theorem ManagerStep.fits {s : JobScheduler} {v : Member} {a : Manager.Act} {o : JobEffect Member}
    (h : ManagerStep s v a o) (fits : v.Fits) : o.self.Fits ∧ ∀ u ∈ o.spawned, u.Fits := by
  cases h with
  | @works a w o place idle worker free step =>
    exact ⟨⟨.inl idle, placeOf_hosts o.self⟩, fun u mem => absurd mem List.not_mem_nil⟩
  | finishes place idle =>
    exact ⟨⟨.inl idle, fun _ => nofun⟩, fun u mem => absurd mem List.not_mem_nil⟩
  | initializes place makesCalls =>
    have worker := fits.worker
    rw [place] at worker
    exact ⟨⟨.inl rfl, worker⟩, fun u mem => absurd mem List.not_mem_nil⟩
  | @calls f a d o s' p place makesCalls call own step ends =>
    constructor
    · have worker := fits.worker
      have stays := step.stays own
      have free (absent : v.thread.worker = .absent) : ∀ t, v.thread.worker ≠ .running t := by
        rw [absent]
        exact fun _ => nofun
      generalize v.place = p₀ at place worker ends
      cases ends with
      | goesOn busy => exact ⟨.inr ((stays.resolve_left busy).trans place.symm), worker⟩
      | makes ended | makesNone ended | refused ended => exact ⟨.inl ended, free worker⟩
      | added ended => exact ⟨.inl ended, worker⟩
      | stopped ended | stopThrows ended => exact ⟨.inl ended, Back.place_hosts worker⟩
    · intro u mem
      obtain ⟨ref, rfl⟩ := (ManagerStep.calls place makesCalls call own step ends).spawned u mem
      exact ⟨.inl rfl, fun _ => nofun⟩

theorem JobStep.fits {s : JobScheduler} {v : Member} {a : JobAct} {o : JobEffect Place}
    (h : JobStep s v.place a o) (fits : v.Fits)
    (client : v.place = .outside → v.thread.worker = .absent) : (v.atPlace o.self).Fits := by
  obtain ⟨call, worker⟩ := fits
  have idle : v.thread.call = .none := by
    rcases call with none | same
    · exact none
    · apply none_of_family
      rw [same]
      generalize v.place = p at h
      cases h <;> rfl
  refine ⟨.inl idle, ?_⟩
  show o.self.hosts v.thread.worker
  generalize v.place = p at h worker client
  cases h with
  | begins => exact client rfl
  | counts =>
    intro t
    rw [show v.thread.worker = .absent from worker]
    exact nofun
  | drops => exact afterRelease_hosts (client rfl)
  | splitThrows | ends =>
    obtain ⟨t, running, -⟩ := worker
    exact ⟨t, running⟩
  | @releases job next o raised =>
    apply afterRelease_hosts
    cases raised with
    | false => exact worker
    | true =>
      obtain ⟨t, running, -⟩ := worker
      exact ⟨t, running⟩
  | _ => exact worker

theorem Place.hosts_wake {p : Place} {w : Manager.Worker} (h : p.hosts w) : p.hosts w.wake := by
  cases w with
  | parked =>
    cases p with
    | outside => exact fun _ => nofun
    | splitting | notifying | calling | called | finished =>
      obtain ⟨t, running⟩ := h
      simp at running
    | destroying back =>
      cases back with
      | client => cases h
      | notify | finish =>
        obtain ⟨t, running⟩ := h
        simp at running
    | _ => cases h
  | _ => exact h

theorem Member.Fits.wake {v : Member} (h : v.Fits) : v.wake.Fits where
  call := by
    rcases h.call with none | same
    · exact .inl (Manager.Call.wake_eq_none.mpr none)
    · exact .inr ((Manager.Call.family_wake _).trans same)
  worker := Place.hosts_wake h.worker

section Step

variable {c c' : Config JobScheduler Member JobEvent} {mv : Move JobAct}

theorem fits_step (h : ∀ v ∈ c.threads, v.Fits) (change : JobChange c mv c') :
    ∀ v ∈ c'.threads, v.Fits := by
  have wakes (v : Member) (_ : jobScheduler.waitsOn v ≠ none) (fits : v.Fits) :
      (jobScheduler.wake v).Fits := fits.wake
  cases change with
  | @spurious i v here waits =>
    intro u mem
    rcases List.mem_or_eq_of_mem_set mem with old | rfl
    · exact h u old
    · exact (h v (List.mem_of_getElem? here)).wake
  | @manager i a cs v o ts here step woken =>
    obtain ⟨own, started⟩ := step.fits (h v (List.mem_of_getElem? here))
    exact jobScheduler.forall_run Member.Fits wakes woken h o.self own o.spawned started i
  | @own i a cs v o here client step =>
    have own := step.fits (h v (List.mem_of_getElem? here)) client
    intro u mem
    rcases List.mem_or_eq_of_mem_set mem with old | rfl
    · exact h u old
    · exact own

end Step

theorem fits_newScheduler (workers pendingMax : Nat) (others : Nat → List Nat) (refs : Nat → Nat)
    (client : Nat) (clients : List Nat) :
    ∀ v ∈ (newScheduler workers pendingMax others refs client clients).threads, v.Fits := by
  intro v mem
  rcases List.mem_cons.mp mem with rfl | mem
  · exact ⟨.inl rfl, rfl⟩
  · obtain ⟨t, old, rfl⟩ := List.mem_map.mp mem
    obtain ⟨id, -, rfl⟩ := List.mem_map.mp old
    exact ⟨.inl rfl, fun _ => nofun⟩

/-! ## Totals over places -/

def atPlaces (f : Place → Nat) (v : Member) : Nat := f v.place

theorem stable_atPlaces (f : Place → Nat) : jobScheduler.Stable (atPlaces f) := fun _ _ => rfl

theorem total_manager {f : Place → Nat} (zero : f .outside = 0) {ts us : List Member} {i : Nat}
    {s : JobScheduler} {v : Member} {a : Manager.Act} {o : JobEffect Member}
    (woken : jobScheduler.Woken ts us) (here : ts[i]? = some v) (step : ManagerStep s v a o) :
    total (atPlaces f) (us.set i o.self ++ o.spawned) + f v.place =
      total (atPlaces f) ts + f o.self.place := by
  have moved := jobScheduler.total_run (stable_atPlaces f) woken here o.self o.spawned
  have none : total (atPlaces f) o.spawned = 0 := total_eq_zero.mpr fun u mem => by
    obtain ⟨ref, rfl⟩ := step.spawned u mem
    exact zero
  rw [none] at moved
  exact moved

theorem total_own (f : Place → Nat) {ts : List Member} {i : Nat} {v : Member}
    (here : ts[i]? = some v) (p : Place) :
    total (atPlaces f) (ts.set i (v.atPlace p)) + f v.place = total (atPlaces f) ts + f p :=
  total_set (atPlaces f) here (v.atPlace p)

theorem total_newScheduler {f : Place → Nat} (outside : f .outside = 0)
    (initializing : f .initializing = 0) (workers pendingMax : Nat) (others : Nat → List Nat)
    (refs : Nat → Nat) (client : Nat) (clients : List Nat) :
    total (atPlaces f) (newScheduler workers pendingMax others refs client clients).threads = 0 :=
  total_eq_zero.mpr fun v mem => by
    rcases List.mem_cons.mp mem with rfl | mem
    · exact initializing
    · obtain ⟨t, -, rfl⟩ := List.mem_map.mp mem
      exact outside

/-! ## References are counted -/

/-- One for a place that holds a reference to `o`. -/
def Place.holds (o : Observer) : Place → Nat
  | .registering _ | .appending _ | .adding _ | .handed => if o = .scheduler then 1 else 0
  | .calling _ _ ob | .called _ _ ob _ => if ob = o then 1 else 0
  | _ => 0

/-- The use count of an observer is the number of references to it. -/
def RefsCounted (c : Config JobScheduler Member JobEvent) : Prop :=
  ∀ o, c.shared.useCount o = c.shared.clientRefs o + total (atPlaces (Place.holds o)) c.threads

theorem placeOf_holds (x : Observer) (w : Manager.Worker) : (placeOf w).holds x = 0 := by
  cases w <;> rfl

theorem Back.place_holds (x : Observer) (back : Back) : back.place.holds x = 0 := by
  cases back <;> rfl

theorem JobStep.balance {s : JobScheduler} {p : Place} {a : JobAct} {o : JobEffect Place}
    (h : JobStep s p a o) (x : Observer) (counted : s.clientRefs x + p.holds x ≤ s.useCount x) :
    o.shared.useCount x + s.clientRefs x + p.holds x =
      s.useCount x + o.shared.clientRefs x + o.self.holds x := by
  have released (s : JobScheduler) (ob : Observer) (back : Back) :
      (afterRelease s ob back).holds x = 0 := by
    unfold afterRelease
    split
    · rfl
    · exact Back.place_holds x back
  cases h with
  | begins held =>
    simp only [JobScheduler.take_clientRefs, JobScheduler.take_useCount, Place.holds]
    by_cases same : x = .scheduler
    · subst same
      simp only [if_true]
      omega
    · simp [same]
  | counts =>
    simp only [JobScheduler.keep_clientRefs, JobScheduler.keep_useCount, Place.holds]
    split <;> omega
  | @copies ob =>
    simp only [JobScheduler.keep_clientRefs, JobScheduler.keep_useCount,
      JobScheduler.hold_useCount, JobScheduler.hold_clientRefs, Place.holds]
    omega
  | @drops ob held =>
    dsimp only
    rw [released]
    simp only [JobScheduler.take_clientRefs, JobScheduler.take_useCount,
      JobScheduler.letGo_useCount, JobScheduler.letGo_clientRefs, Place.holds] at counted ⊢
    by_cases same : x = ob
    · subst same
      simp only [if_true]
      omega
    · simp only [if_neg same]
      omega
  | @locks job next ob there live =>
    simp only [JobScheduler.hold_useCount, JobScheduler.hold_clientRefs, Place.holds]
    by_cases same : x = ob
    · subst same
      simp only [if_true]
      omega
    · simp only [if_neg same, if_neg (Ne.symm same)]
      omega
  | @releases job next ob raised =>
    dsimp only [releaseBlock]
    rw [released]
    simp only [JobScheduler.letGo_useCount, JobScheduler.letGo_clientRefs, Place.holds] at counted ⊢
    by_cases same : x = ob
    · subst same
      simp only [if_true] at counted ⊢
      omega
    · simp only [if_neg same, if_neg (Ne.symm same)]
      omega
  | _ => exact (Nat.add_right_comm _ _ _).symm ▸ rfl

theorem CallEnds.balance {s s' : JobScheduler} {o : Manager.Effect Manager.Call} {p p' : Place}
    (h : CallEnds s o p s' p') (x : Observer) :
    s'.useCount x + s.clientRefs x + p.holds x = s.useCount x + s'.clientRefs x + p'.holds x := by
  cases h with
  | makes =>
    simp only [JobScheduler.keep_clientRefs, JobScheduler.keep_useCount,
      JobScheduler.hold_useCount, JobScheduler.hold_clientRefs, Place.holds]
    omega
  | refused =>
    simp only [JobScheduler.keep_clientRefs, JobScheduler.keep_useCount, Place.holds]
    omega
  | stopped | stopThrows =>
    rw [Back.place_holds]
    rfl
  | _ => rfl

theorem ManagerStep.balance {s : JobScheduler} {v : Member} {a : Manager.Act}
    {o : JobEffect Member} (h : ManagerStep s v a o) (x : Observer) :
    o.shared.useCount x + s.clientRefs x + v.place.holds x =
      s.useCount x + o.shared.clientRefs x + o.self.place.holds x := by
  cases h with
  | works place =>
    rw [place, placeOf_holds]
    rfl
  | finishes place | initializes place =>
    rw [place]
    rfl
  | calls place makesCalls call own step ends => exact ends.balance x

theorem RefsCounted.le {c : Config JobScheduler Member JobEvent} (h : RefsCounted c) {i : Nat}
    {v : Member} (here : c.threads[i]? = some v) (x : Observer) :
    c.shared.clientRefs x + v.place.holds x ≤ c.shared.useCount x := by
  rw [h x]
  exact Nat.add_le_add_left (le_total_of_getElem? (atPlaces (Place.holds x)) here) _

theorem refsCounted_step {c c' : Config JobScheduler Member JobEvent} {mv : Move JobAct}
    (h : RefsCounted c) (change : JobChange c mv c') : RefsCounted c' := by
  intro x
  have counted := h x
  cases change with
  | spurious here waits =>
    have same := jobScheduler.total_spurious (stable_atPlaces (Place.holds x)) here waits
    exact counted.trans (congrArg _ same.symm)
  | @manager i a cs v o ts here step woken =>
    have moved := total_manager (f := Place.holds x) rfl woken here step
    have balance := step.balance x
    dsimp only
    omega
  | @own i a cs v o here client step =>
    have moved := total_own (Place.holds x) here o.self
    have balance := step.balance x (h.le here x)
    dsimp only
    omega

theorem refsCounted_newScheduler (workers pendingMax : Nat) (others : Nat → List Nat)
    (refs : Nat → Nat) (client : Nat) (clients : List Nat) :
    RefsCounted (newScheduler workers pendingMax others refs client clients) := by
  intro x
  rw [total_newScheduler rfl rfl]
  cases x <;> rfl

end Threads.Splitter
