import Threads.Manager.Accounting
import Threads.Splitter.Observers

/-!
# Executions and their notifications

`ObservableSplitterJob::Run` notifies its observers after `Split`. A job whose `Split`
returns counts itself out of `pending_job_count_` once, if its scheduler is registered
with it once.
-/

namespace Threads.Manager

open Concurrency

/-! ## Tasks in hand -/

def inHand (t : Thread) : Nat := t.held.length + t.running.length

theorem stable_inHand : threadManager.Stable inHand := fun t _ => by
  show t.wake.worker.hands.held.length + t.wake.worker.hands.running.length = _
  rw [hands_wake]
  rfl

theorem countP_thread (j : Nat) (es : List Event) {p : Event → Bool} {β : Type}
    {f : Entry → Option β} (same : ∀ e, (f (j, e)).isSome = p e) :
    ((es.map (Prod.mk j)).filterMap f).length = es.countP p := by
  rw [List.length_filterMap_eq_countP, List.countP_map]
  exact List.countP_congr fun e _ => by simp [same]

/-- A task that is finished, in hand or queued has been pushed. -/
theorem Accounts.conserves {j : Nat} {s s' : Impl} {h h' : Hands} {es : List Event}
    (block : Accounts j s h s' h' (es.map (Prod.mk j))) :
    es.countP Event.isFinish + (h'.held.length + h'.running.length) + s'.tasks.length ≤
      es.countP Event.isPush + (h.held.length + h.running.length) + s.tasks.length := by
  have queue := congrArg List.length block.queue
  have held := congrArg List.length block.held
  have running := congrArg List.length block.running
  have handed : ((es.map (Prod.mk j)).filterMap (handedTo j)).length ≤
      ((es.map (Prod.mk j)).filterMap takenTask).length := by
    rw [List.length_filterMap_eq_countP, List.length_filterMap_eq_countP]
    apply List.countP_mono_left
    intro e _ handed
    obtain ⟨i, e⟩ := e
    cases e <;> first | rfl | cases handed
  have pushes := countP_thread j es (p := Event.isPush) (f := pushedTask) fun e => by
    cases e <;> rfl
  have finishes := countP_thread j es (p := Event.isFinish) (f := finishedBy j) fun e => by
    cases e <;> simp [finishedBy, Event.isFinish]
  simp only [List.length_append, List.length_map] at queue held running
  omega

/-- No more tasks are finished, in hand or queued than have been pushed. -/
def TasksPushed (c : Config Impl Thread Event) : Prop :=
  c.log.countP (fun e => e.2.isFinish) + total inHand c.threads + c.shared.tasks.length ≤
    c.log.countP fun e => e.2.isPush

theorem tasksPushed_step {c c' : Config Impl Thread Event} {mv : Move Act}
    (account : QueueAccount c) (h : TasksPushed c) (change : Change c mv c') : TasksPushed c' := by
  unfold TasksPushed at h ⊢
  have entries (p : Event → Bool) (i : Nat) (es : List Event) :
      (c.log ++ es.map (Prod.mk i)).countP (fun e => p e.2) =
        c.log.countP (fun e => p e.2) + es.countP p := by
    rw [List.countP_append, List.countP_map]
    rfl
  cases change with
  | spurious here waits =>
    have same := threadManager.total_spurious stable_inHand here waits
    exact (congrArg (_ + · + _) same).trans_le h
  | @worker i a cs t w o ts alive here idle place step delivered =>
    subst place
    have block := (step.accounts (account.ready t (List.mem_of_getElem? here)) i).conserves
    have moved := threadManager.total_run stable_inHand (threadManager.deliver_woken delivered) here
      (t.withWorker idle o.self) []
    rw [List.append_nil, total_nil] at moved
    have before : inHand t = t.worker.hands.held.length + t.worker.hands.running.length := rfl
    have after : inHand (t.withWorker idle o.self) =
        o.self.hands.held.length + o.self.hands.running.length := rfl
    simp only [entries]
    omega
  | @call i a cs t d o ts alive here makesCalls place step delivered =>
    have block := (step.accounts i t.worker.hands).conserves
    have moved := threadManager.total_run stable_inHand (threadManager.deliver_woken delivered) here
      (t.withCall makesCalls o.self) o.spawned
    have started := total_started step (f := inHand) fun _ => rfl
    have same : inHand (t.withCall makesCalls o.self) = inHand t := rfl
    simp only [entries]
    omega

theorem tasksPushed_of_reach {clients : List Nat} {c : Config Impl Thread Event}
    (reach : threadManager.Reach (fresh clients) c) : TasksPushed c := by
  let inv (c : Config Impl Thread Event) := QueueAccount c ∧ TasksPushed c
  have init : inv (fresh clients) := by
    refine ⟨queueAccount_fresh clients, Nat.le_of_eq ?_⟩
    rw [total_fresh clients fun _ => rfl]
    rfl
  have keeps {c c' : Config Impl Thread Event} {mv : Move Act} (h : inv c) (_ : True)
      (step : threadManager.Step c mv c') : inv c' :=
    ⟨queueAccount_step h.1 (change_of_step step), tasksPushed_step h.1 h.2 (change_of_step step)⟩
  have both : inv c := reach.invariant init keeps
  exact both.2

end Threads.Manager

namespace Threads.Splitter

open Concurrency

def JobEvent.accepts : JobEvent → Bool
  | .manager e => e.isPush
  | _ => false

def JobEvent.executes : JobEvent → Bool
  | .manager e => e.isFinish
  | _ => false

def JobEvent.completes : JobEvent → Bool
  | .completed _ => true
  | _ => false

/-- The jobs that `thread_manager_->Add` has accepted. -/
def accepted (c : Config JobScheduler Member JobEvent) : Nat := c.log.countP fun e => e.2.accepts

/-- The executions of jobs that have ended. -/
def executed (c : Config JobScheduler Member JobEvent) : Nat := c.log.countP fun e => e.2.executes

/-- The calls of `SplitterJobScheduler::OnCompletedJob`. -/
def reported (c : Config JobScheduler Member JobEvent) : Nat := c.log.countP fun e => e.2.completes

/-- The executions that thread `i` has ended, and its calls of `OnCompletedJob`. -/
def executedBy (c : Config JobScheduler Member JobEvent) (i : Nat) : Nat :=
  c.log.countP fun e => e.1 == i && e.2.executes

def reportedBy (c : Config JobScheduler Member JobEvent) (i : Nat) : Nat :=
  c.log.countP fun e => e.1 == i && e.2.completes

/-- How often the scheduler is among the first `n` observers of the job. -/
def notices (lists : Nat → List Observer) (job n : Nat) : Nat :=
  ((lists job).take n).count .scheduler

def Back.reports (lists : Nat → List Observer) : Back → Nat
  | .client => 0
  | .notify job next => notices lists job next
  | .finish => 1

/-- The calls of `OnCompletedJob` due in the execution at this place: one for each time
it has notified the scheduler, and one when `Run` is over. -/
def Place.reports (lists : Nat → List Observer) : Place → Nat
  | .notifying job next | .calling job next _ => notices lists job next
  | .called job next _ _ => notices lists job (next + 1)
  | .finished _ => 1
  | .destroying back => back.reports lists
  | _ => 0

/-- One for a client between `thread_manager_->Add(job)` and its increment. -/
def Place.uncounted : Place → Nat
  | .handed => 1
  | _ => 0

/-- The jobs that are accepted and not yet counted. -/
def jobsInGap (c : Config JobScheduler Member JobEvent) : Nat :=
  total (atPlaces Place.uncounted) c.threads

/-- The job to whose list `RegisterObserver` is about to add the scheduler. -/
def Place.target : Place → Option Nat
  | .appending job => some job
  | _ => none

/-- `Split` does not throw, another observer throws only when the scheduler has been
notified, and `RegisterObserver` adds the scheduler only to a list that it is not in. -/
def ReportsOnce (c : Config JobScheduler Member JobEvent) : Move JobAct → Prop
  | .run _ (.split result) _ => result ≠ .threw
  | .run i (.callOther raises) _ => raises = true → ∀ v ∈ c.threads[i]?,
    v.place.reports c.shared.observers = 1
  | .run i .append _ => ∀ v ∈ c.threads[i]?, ∀ job ∈ v.place.target,
    .scheduler ∉ c.shared.observers job
  | _ => True

instance (c : Config JobScheduler Member JobEvent) (mv : JobMove) :
    Decidable (ReportsOnce c mv) := by
  unfold ReportsOnce
  split <;> infer_instance

/-! ## Every job in the thread manager has its scheduler registered once -/

/-- The scheduler is in the list of the job, once. -/
def Registered (s : JobScheduler) (job : Nat) : Prop := (s.observers job).count .scheduler = 1

/-- A thread calls the observer whose turn it is, and one that throws comes after the
scheduler. -/
def Place.sound (s : JobScheduler) : Place → Prop
  | .adding job => Registered s job
  | .calling job next ob => (s.observers job)[next]? = some ob
  | .called job next _ raised => raised = true → notices s.observers job (next + 1) = 1
  | _ => True

/-- A member whose job has its scheduler registered once. -/
structure Member.Sound (s : JobScheduler) (v : Member) : Prop where
  place : v.place.sound s
  hand : ∀ t, v.thread.worker.task = some t → Registered s t.runnable

structure SoundJobs (c : Config JobScheduler Member JobEvent) : Prop where
  fits : ∀ v ∈ c.threads, v.Fits
  refs : RefsCounted c
  lists : ∀ job, (c.shared.observers job).count .scheduler ≤ 1
  queued : ∀ t ∈ c.shared.impl.tasks, Registered c.shared t.runnable
  members : ∀ v ∈ c.threads, v.Sound c.shared

theorem task_wake (w : Manager.Worker) : w.wake.task = w.task := by
  cases w <;> rfl

theorem notices_succ {lists : Nat → List Observer} {job next : Nat} {ob : Observer}
    (there : (lists job)[next]? = some ob) :
    notices lists job (next + 1) = notices lists job next + if ob = .scheduler then 1 else 0 := by
  unfold notices
  rw [List.take_add_one, there, Option.toList_some, List.count_append]
  congr 1
  by_cases same : ob = .scheduler
  · rw [if_pos same, same]
    rfl
  · rw [if_neg same, List.count_eq_zero]
    exact fun mem => same (List.mem_singleton.mp mem).symm

/-- The end of the list has been reached. -/
theorem notices_all {lists : Nat → List Observer} {job next : Nat}
    (ended : (lists job)[next]? = none) :
    notices lists job next = (lists job).count .scheduler := by
  unfold notices
  rw [List.take_of_length_le (List.getElem?_eq_none_iff.mp ended)]

/-- A list that has the scheduler stays as it is. -/
structure KeepsRegistered (s s' : JobScheduler) : Prop where
  lists : ∀ job, (s'.observers job).count .scheduler ≤ 1
  keeps : ∀ job, Registered s job → s'.observers job = s.observers job

theorem Registered.of_keeps {s s' : JobScheduler} (h : KeepsRegistered s s') {job : Nat}
    (registered : Registered s job) : Registered s' job := by
  unfold Registered
  rw [h.keeps job registered]
  exact registered

/-- The job that is run has its scheduler registered. -/
theorem Member.Sound.runs {s : JobScheduler} {v : Member} (h : v.Sound s) {job : Nat}
    (runs : RunsJob job v.thread.worker) : Registered s job := by
  obtain ⟨t, running, rfl⟩ := runs
  exact h.hand t (by rw [running]; rfl)

theorem Member.Sound.of_keeps {s s' : JobScheduler} (h : KeepsRegistered s s') {v : Member}
    (fits : v.Fits) (sound : v.Sound s) : v.Sound s' := by
  refine ⟨?_, fun t hand => (sound.hand t hand).of_keeps h⟩
  have kept {job : Nat} (worker : RunsJob job v.thread.worker) := h.keeps job (sound.runs worker)
  have place := sound.place
  have worker := fits.worker
  generalize v.place = p at place worker
  cases p with
  | adding job => exact place.of_keeps h
  | calling job next ob =>
    show (s'.observers job)[next]? = some ob
    rw [kept worker]
    exact place
  | called job next ob raised =>
    show raised = true → ((s'.observers job).take (next + 1)).count .scheduler = 1
    rw [kept worker]
    exact place
  | _ => trivial

/-- What is due in an execution does not change with the lists of other jobs. -/
theorem Member.Sound.reports {s s' : JobScheduler} (h : KeepsRegistered s s') {v : Member}
    (fits : v.Fits) (sound : v.Sound s) :
    v.place.reports s'.observers = v.place.reports s.observers := by
  have kept {job : Nat} (worker : RunsJob job v.thread.worker) (n : Nat) :
      notices s'.observers job n = notices s.observers job n := by
    unfold notices
    rw [h.keeps job (sound.runs worker)]
  have worker := fits.worker
  generalize v.place = p at worker
  cases p with
  | notifying | calling | called => exact kept worker _
  | destroying back =>
    cases back with
    | notify => exact kept worker _
    | _ => rfl
  | _ => rfl

theorem keepsRegistered_of_eq {s s' : JobScheduler} (same : s'.observers = s.observers)
    (lists : ∀ job, (s.observers job).count .scheduler ≤ 1) : KeepsRegistered s s' where
  lists job := by
    rw [same]
    exact lists job
  keeps job _ := by rw [same]

/-- A registration that finds no scheduler in the list leaves one in it. -/
theorem keepsRegistered_append {s : JobScheduler} {job : Nat}
    (lists : ∀ job, (s.observers job).count .scheduler ≤ 1)
    (once : .scheduler ∉ s.observers job) :
    KeepsRegistered s (s.appendObserver job) ∧ Registered (s.appendObserver job) job := by
  have own : Registered (s.appendObserver job) job := by
    unfold Registered JobScheduler.appendObserver
    simp only [Function.update_self, List.count_append, List.count_eq_zero.mpr once]
    rfl
  have other {k : Nat} (apart : k ≠ job) :
      (s.appendObserver job).observers k = s.observers k := Function.update_of_ne apart _ _
  refine ⟨⟨fun k => ?_, fun k registered => other ?_⟩, own⟩
  · by_cases same : k = job
    · subst same
      exact Nat.le_of_eq own
    · rw [other same]
      exact lists k
  · rintro rfl
    exact absurd (registered.symm.trans (List.count_eq_zero.mpr once)) Nat.one_ne_zero

theorem JobStep.keepsRegistered {s : JobScheduler} {p : Place} {a : JobAct} {o : JobEffect Place}
    (h : JobStep s p a o) (lists : ∀ job, (s.observers job).count .scheduler ≤ 1)
    (once : a = .append → ∀ job ∈ p.target, .scheduler ∉ s.observers job) :
    KeepsRegistered s o.shared := by
  cases h with
  | appends => exact (keepsRegistered_append lists (once rfl _ rfl)).1
  | _ => exact keepsRegistered_of_eq rfl lists

/-- `RegisterObserver` finds a live scheduler where it is. -/
theorem registered_of_found {s : JobScheduler} {job : Nat} (live : 0 < s.useCount .scheduler)
    (lists : ∀ job, (s.observers job).count .scheduler ≤ 1) (found : s.registered job = true) :
    Registered s job := by
  obtain ⟨ob, mem, same⟩ := List.any_eq_true.mp found
  have own : s.lock .scheduler = s.lock ob := eq_of_beq same
  unfold JobScheduler.lock at own
  rw [if_pos live] at own
  split at own
  · obtain rfl := Option.some.inj own
    exact Nat.le_antisymm (lists job) (List.count_pos_iff.mpr mem)
  · cases own

theorem afterRelease_sound (s s' : JobScheduler) (o : Observer) (back : Back) :
    (afterRelease s o back).sound s' := by
  unfold afterRelease
  split
  · trivial
  · cases back <;> trivial

theorem afterRelease_reports (lists : Nat → List Observer) (s : JobScheduler) (o : Observer)
    (back : Back) : (afterRelease s o back).reports lists = back.reports lists := by
  unfold afterRelease
  split
  · rfl
  · cases back <;> rfl

/-- What a step outside the thread manager may not do, for a thread at this place. -/
structure Place.MayStep (s : JobScheduler) (p : Place) (a : JobAct) : Prop where
  returns : a ≠ .split .threw
  raises : a = .callOther true → p.reports s.observers = 1
  once : a = .append → ∀ job ∈ p.target, .scheduler ∉ s.observers job

theorem JobStep.sound {s : JobScheduler} {v : Member} {a : JobAct} {o : JobEffect Place}
    (h : JobStep s v.place a o) (sound : v.Sound s) (may : v.place.MayStep s a)
    (lists : ∀ job, (s.observers job).count .scheduler ≤ 1)
    (held : v.place.holds .scheduler ≤ s.useCount .scheduler) : o.self.sound o.shared := by
  have place := sound.place
  generalize v.place = p at h place may held
  cases h with
  | finds found => exact registered_of_found held lists found
  | appends => exact (keepsRegistered_append lists (may.once rfl _ rfl)).2
  | locks there => exact there
  | completes => exact nofun
  | callsOther =>
    rintro rfl
    have due := may.raises rfl
    rw [notices_succ place]
    exact due
  | drops | releases => exact afterRelease_sound _ _ _ _
  | _ => trivial

/-- The calls of `OnCompletedJob` in a step of an execution are those that are due. -/
theorem JobStep.reports {s : JobScheduler} {v : Member} {a : JobAct} {o : JobEffect Place}
    (h : JobStep s v.place a o) (fits : v.Fits) (sound : v.Sound s) (returns : a ≠ .split .threw) :
    v.place.reports s.observers + o.events.countP JobEvent.completes =
      o.self.reports o.shared.observers + o.events.countP JobEvent.executes := by
  have runs {job : Nat} (worker : RunsJob job v.thread.worker) := sound.runs worker
  have worker := fits.worker
  have place := sound.place
  generalize v.place = p at h worker place
  cases h with
  | drops =>
    dsimp only
    rw [afterRelease_reports]
    rfl
  | splitThrows => exact absurd rfl returns
  | ends ended => exact (notices_all ended).trans (runs worker)
  | completes => exact (notices_succ place).symm
  | callsOther => exact (notices_succ place).symm
  | @releases job next ob raised =>
    dsimp only [releaseBlock]
    rw [afterRelease_reports]
    cases raised with
    | false => rfl
    | true => exact place rfl
  | _ => rfl

theorem JobStep.accepts {s : JobScheduler} {p : Place} {a : JobAct} {o : JobEffect Place}
    (h : JobStep s p a o) : o.events.countP JobEvent.accepts = 0 := by
  cases h <;> rfl

theorem JobStep.bounded {s : JobScheduler} {p : Place} {a : JobAct} {o : JobEffect Place}
    (h : JobStep s p a o) (bound : s.pendingJobCount < 2 ^ 64) :
    o.shared.pendingJobCount < 2 ^ 64 := by
  cases h with
  | counts => exact increment_lt bound
  | completes => exact decrement_lt bound
  | _ => exact bound

/-- The counter moves with the gap and with the calls of `OnCompletedJob`. -/
theorem JobStep.counter {s : JobScheduler} {p : Place} {a : JobAct} {o : JobEffect Place}
    (h : JobStep s p a o) (k : Nat) :
    asSize (o.shared.pendingJobCount +
        (o.self.uncounted + o.events.countP JobEvent.completes + k)) =
      asSize (s.pendingJobCount + (p.uncounted + k)) := by
  have released (ob : Observer) (back : Back) : (afterRelease s ob back).uncounted = 0 := by
    unfold afterRelease
    split
    · rfl
    · cases back <;> rfl
  cases h with
  | counts =>
    have moved := asSize_increment s.pendingJobCount k
    rw [Nat.add_assoc] at moved
    simpa [Place.uncounted] using moved
  | completes =>
    have moved := asSize_decrement s.pendingJobCount k
    rw [Nat.add_assoc] at moved
    simpa [completedBlock, Place.uncounted, JobEvent.completes] using moved
  | drops =>
    dsimp only
    rw [released]
    rfl
  | releases =>
    dsimp only [releaseBlock]
    rw [released]
    rfl
  | _ => rfl

/-! ## The thread manager's part -/

theorem countP_manager (es : List Manager.Event) :
    (es.map JobEvent.manager).countP JobEvent.completes = 0 ∧
      (es.map JobEvent.manager).countP JobEvent.executes = es.countP Manager.Event.isFinish ∧
      (es.map JobEvent.manager).countP JobEvent.accepts = es.countP Manager.Event.isPush := by
  refine ⟨?_, List.countP_map, List.countP_map⟩
  rw [List.countP_eq_zero]
  intro e mem
  obtain ⟨e, -, rfl⟩ := List.mem_map.mp mem
  exact nofun

/-- What a call of the thread manager accepts is in the gap, and it is the job that was
to be added. -/
theorem CallEnds.accepts {s s' : JobScheduler} {p p' : Place} {f : Manager.Family} {id : Nat}
    {d : Manager.Call} {a : Manager.CallAct} {o : Manager.Effect Manager.Call}
    (h : CallEnds { s with impl := o.shared } o p s' p') (place : p.family = some f)
    (own : d.family.or a.family = some f) (step : Manager.CallStep s.impl id d a o) :
    p.uncounted + o.events.countP Manager.Event.isPush = p'.uncounted ∧
      ∀ t ∈ o.shared.tasks, t ∈ s.impl.tasks ∨ p = .adding t.runnable := by
  have returned (back : Back) : back.place.uncounted = 0 := by cases back <;> rfl
  have kept (other : ∀ r, f ≠ .add r) : o.events.countP Manager.Event.isPush = 0 ∧
      ∀ t ∈ o.shared.tasks, t ∈ s.impl.tasks ∨ p = .adding t.runnable := by
    obtain ⟨none, same⟩ := step.pushes_nothing own other
    exact ⟨none, fun t mem => .inl (same ▸ mem)⟩
  cases p with
  | starting =>
    cases place
    obtain ⟨none, tasks⟩ := kept fun _ => nofun
    rw [none]
    cases h <;> exact ⟨rfl, tasks⟩
  | adding job =>
    cases place
    cases step.adding own with
    | refused ended fails pushes tasks =>
      refine ⟨?_, fun t mem => .inl (tasks t mem)⟩
      rw [pushes]
      cases h with
      | added _ returns => exact absurd (fails.symm.trans returns) nofun
      | _ => rfl
    | waits busy pushes tasks =>
      refine ⟨?_, fun t mem => .inl (tasks t mem)⟩
      rw [pushes]
      cases h with
      | added ended => exact absurd ended busy
      | _ => rfl
    | added ended returns pushes tasks =>
      refine ⟨?_, fun t mem => (tasks t mem).imp_right fun same => congrArg _ same.symm⟩
      rw [pushes]
      cases h with
      | goesOn busy => exact absurd ended busy
      | refused _ fails => exact absurd (returns.symm.trans fails) nofun
      | added => rfl
  | destroying back =>
    cases place
    obtain ⟨none, tasks⟩ := kept fun _ => nofun
    rw [none]
    cases h with
    | goesOn => exact ⟨rfl, tasks⟩
    | stopped | stopThrows => exact ⟨(returned back).symm, tasks⟩
  | _ => cases place

theorem CallEnds.pending {s s' : JobScheduler} {o : Manager.Effect Manager.Call} {p p' : Place}
    (h : CallEnds s o p s' p') :
    s'.pendingJobCount = s.pendingJobCount ∧ s'.impl = s.impl ∧
      (∀ lists, p.reports lists = p'.reports lists) ∧ (p.sound s → p'.sound s') := by
  cases h with
  | goesOn => exact ⟨rfl, rfl, fun _ => rfl, id⟩
  | @stopped back | @stopThrows back =>
    cases back <;> exact ⟨rfl, rfl, fun _ => rfl, fun _ => trivial⟩
  | _ => exact ⟨rfl, rfl, fun _ => rfl, fun _ => trivial⟩

theorem ManagerStep.counts {s : JobScheduler} {v : Member} {a : Manager.Act} {o : JobEffect Member}
    (h : ManagerStep s v a o) :
    (∀ lists, v.place.reports lists + o.events.countP JobEvent.completes =
        o.self.place.reports lists + o.events.countP JobEvent.executes) ∧
      v.place.uncounted + o.events.countP JobEvent.accepts = o.self.place.uncounted ∧
      o.events.countP JobEvent.completes = 0 ∧
      o.shared.pendingJobCount = s.pendingJobCount := by
  cases h with
  | @works a w o place idle worker free step =>
    obtain ⟨completes, executes, accepts⟩ := countP_manager o.events
    have placed (w : Manager.Worker) :
        (∀ lists, (placeOf w).reports lists = 0) ∧ (placeOf w).uncounted = 0 := by
      cases w <;> exact ⟨fun _ => rfl, rfl⟩
    dsimp only
    rw [completes, executes, accepts, place, step.finishes_nothing free, step.pushes_nothing,
      (placed o.self).2]
    exact ⟨fun lists => ((placed o.self).1 lists).symm, rfl, rfl, rfl⟩
  | finishes place | initializes place =>
    rw [place]
    exact ⟨fun _ => rfl, rfl, rfl, rfl⟩
  | @calls f a d o s' p place makesCalls call own step ends =>
    obtain ⟨completes, executes, accepts⟩ := countP_manager o.events
    obtain ⟨pending, -, reports, -⟩ := ends.pending
    dsimp only
    rw [completes, executes, accepts, step.finishes_nothing]
    exact ⟨reports, (ends.accepts place own step).1, rfl, pending⟩

/-- The tasks of the thread manager are jobs that were added. -/
theorem ManagerStep.queue {s : JobScheduler} {v : Member} {a : Manager.Act} {o : JobEffect Member}
    (h : ManagerStep s v a o) :
    (∀ t ∈ o.shared.impl.tasks, t ∈ s.impl.tasks ∨ v.place = .adding t.runnable) ∧
      ∀ t, o.self.thread.worker.task = some t →
        (∃ u ∈ s.impl.tasks, u.runnable = t.runnable) ∨ v.thread.worker.task = some t := by
  cases h with
  | works place idle worker free step =>
    subst worker
    exact ⟨fun t mem => .inl (step.queue t mem), fun t hand => step.task hand⟩
  | finishes => exact ⟨fun _ => .inl, fun _ => nofun⟩
  | initializes => exact ⟨fun _ => .inl, fun _ => .inr⟩
  | @calls f a d o s' p place makesCalls call own step ends =>
    refine ⟨fun t mem => ?_, fun t => .inr⟩
    dsimp only at mem
    rw [ends.pending.2.1] at mem
    exact (ends.accepts place own step).2 t mem

theorem ManagerStep.sound {s : JobScheduler} {v : Member} {a : Manager.Act} {o : JobEffect Member}
    (h : ManagerStep s v a o) (sound : v.place.sound s) : o.self.place.sound o.shared := by
  cases h with
  | @works a w o =>
    have placed (w : Manager.Worker) (s : JobScheduler) : (placeOf w).sound s := by
      cases w <;> trivial
    exact placed _ _
  | finishes | initializes => trivial
  | calls place makesCalls call own step ends => exact ends.pending.2.2.2 sound

/-! ## Runs -/

/-- The calls of `OnCompletedJob` due in the execution of a thread, if it is in one. -/
def due (c : Config JobScheduler Member JobEvent) : Member → Nat :=
  atPlaces (Place.reports c.shared.observers)

/-- The counter, the log and the places of the threads agree. -/
structure ReportAccount (c : Config JobScheduler Member JobEvent) : Prop where
  jobs : SoundJobs c
  threads : ∀ i, reportedBy c i = executedBy c i + Program.look (due c) 0 c.threads i
  together : reported c = executed c + total (due c) c.threads
  counter : asSize (c.shared.pendingJobCount + jobsInGap c + reported c) = asSize (accepted c)
  bounded : c.shared.pendingJobCount < 2 ^ 64

section Step

variable {c c' : Config JobScheduler Member JobEvent} {mv : Move JobAct}

theorem ReportsOnce.mayStep {i : Nat} {a : JobAct} {cs : List Nat} {v : Member}
    (h : ReportsOnce c (.run i a cs)) (here : c.threads[i]? = some v) :
    v.place.MayStep c.shared a where
  returns := by
    rintro rfl
    exact h rfl
  raises := by
    rintro rfl
    exact h rfl v here
  once := by
    rintro rfl
    exact h v here

/-- The lists that have the scheduler stay as they are. -/
theorem keepsRegistered_step (h : SoundJobs c) (ok : ReportsOnce c mv)
    (change : JobChange c mv c') : KeepsRegistered c.shared c'.shared := by
  cases change with
  | spurious => exact keepsRegistered_of_eq rfl h.lists
  | manager here step => exact keepsRegistered_of_eq step.observers.1 h.lists
  | own here client step => exact step.keepsRegistered h.lists (ok.mayStep here).once

theorem soundJobs_step (h : SoundJobs c) (ok : ReportsOnce c mv) (change : JobChange c mv c') :
    SoundJobs c' := by
  have fits := fits_step h.fits change
  have refs := refsCounted_step h.refs change
  have keeps := keepsRegistered_step h ok change
  obtain ⟨before, counted, lists, queued, members⟩ := h
  have kept (u : Member) (mem : u ∈ c.threads) := (members u mem).of_keeps keeps (before u mem)
  cases change with
  | @spurious i v here waits =>
    refine ⟨fits, refs, lists, queued, fun u mem => ?_⟩
    rcases List.mem_or_eq_of_mem_set mem with old | rfl
    · exact members u old
    · have sound := members v (List.mem_of_getElem? here)
      refine ⟨sound.place, fun t hand => sound.hand t ?_⟩
      exact (task_wake _).symm.trans hand
  | @manager i a cs v o ts here step woken =>
    have sound := kept v (List.mem_of_getElem? here)
    obtain ⟨tasks, hands⟩ := step.queue
    refine ⟨fits, refs, keeps.lists, fun t mem => ?_, ?_⟩
    · rcases tasks t mem with old | adding
      · exact (queued t old).of_keeps keeps
      · have place := sound.place
        rw [adding] at place
        exact place
    · apply jobScheduler.forall_run (Member.Sound o.shared) ?_ woken kept
      · refine ⟨step.sound (members v (List.mem_of_getElem? here)).place, fun t hand => ?_⟩
        rcases hands t hand with ⟨u, old, same⟩ | old
        · exact same ▸ (queued u old).of_keeps keeps
        · exact sound.hand t old
      · intro u mem
        obtain ⟨ref, rfl⟩ := step.spawned u mem
        exact ⟨trivial, fun _ => nofun⟩
      · intro u _ sound
        refine ⟨sound.place, fun t hand => sound.hand t ?_⟩
        exact (task_wake _).symm.trans hand
  | @own i a cs v o here client step =>
    have sound := members v (List.mem_of_getElem? here)
    have held := (Nat.le_add_left _ _).trans (counted.le here .scheduler)
    have place := step.sound sound (ok.mayStep here) lists held
    refine ⟨fits, refs, keeps.lists, fun t mem => ?_, fun u mem => ?_⟩
    · rw [step.quiet.2.2] at mem
      exact (queued t mem).of_keeps keeps
    · rcases List.mem_or_eq_of_mem_set mem with old | rfl
      · exact kept u old
      · exact ⟨place, fun t hand => (sound.hand t hand).of_keeps keeps⟩

/-- The entries that a block adds to the log. -/
theorem countP_entries (log : List (Nat × JobEvent)) (i : Nat) (es : List JobEvent)
    (p : JobEvent → Bool) :
    (log ++ es.map (Prod.mk i)).countP (fun e => p e.2) =
      log.countP (fun e => p e.2) + es.countP p := by
  rw [List.countP_append, List.countP_map]
  rfl

theorem countP_entriesBy (log : List (Nat × JobEvent)) (i j : Nat) (es : List JobEvent)
    (p : JobEvent → Bool) :
    (log ++ es.map (Prod.mk i)).countP (fun e => e.1 == j && p e.2) =
      log.countP (fun e => e.1 == j && p e.2) + if j = i then es.countP p else 0 := by
  rw [List.countP_append, List.countP_map]
  congr 1
  by_cases same : j = i
  · subst same
    rw [if_pos rfl]
    exact List.countP_congr fun e _ => by simp
  · rw [if_neg same, List.countP_eq_zero]
    intro e _
    simp [Ne.symm same]

theorem ReportAccount.next (h : ReportAccount c) {i : Nat} {v self : Member}
    {ts spawned : List Member} {s : JobScheduler} {es : List JobEvent}
    (keeps : KeepsRegistered c.shared s)
    (jobs : SoundJobs ⟨s, ts.set i self ++ spawned, c.log ++ es.map (Prod.mk i)⟩)
    (woken : jobScheduler.Woken c.threads ts) (here : c.threads[i]? = some v)
    (outside : ∀ u ∈ spawned, u.place = .outside)
    (reports : v.place.reports c.shared.observers + es.countP JobEvent.completes =
      self.place.reports s.observers + es.countP JobEvent.executes)
    (counter : ∀ k, asSize (s.pendingJobCount +
        (self.place.uncounted + es.countP JobEvent.completes + k)) =
      asSize (c.shared.pendingJobCount + (v.place.uncounted + es.countP JobEvent.accepts + k)))
    (bounded : s.pendingJobCount < 2 ^ 64) :
    ReportAccount ⟨s, ts.set i self ++ spawned, c.log ++ es.map (Prod.mk i)⟩ := by
  have kept (u : Member) (mem : u ∈ c.threads) : atPlaces (Place.reports s.observers) u = due c u :=
    (h.jobs.members u mem).reports keeps (h.jobs.fits u mem)
  have none {f : Place → Nat} (zero : f .outside = 0) : total (atPlaces f) spawned = 0 :=
    total_eq_zero.mpr fun u mem => by rw [atPlaces, outside u mem, zero]
  have moved (f : Place → Nat) (zero : f .outside = 0) :
      total (atPlaces f) (ts.set i self ++ spawned) + f v.place =
        total (atPlaces f) c.threads + f self.place := by
    have run := jobScheduler.total_run (stable_atPlaces f) woken here self spawned
    rw [none zero] at run
    exact run
  have own : v.place.reports s.observers = v.place.reports c.shared.observers :=
    kept v (List.mem_of_getElem? here)
  refine ⟨jobs, fun j => ?_, ?_, ?_, bounded⟩
  · have before := h.threads j
    have seen := jobScheduler.look_run (f := atPlaces (Place.reports s.observers)) (d := 0)
      (fun _ _ => rfl) woken here self spawned (fun u mem => by rw [atPlaces, outside u mem]; rfl) j
    have same : Program.look (atPlaces (Place.reports s.observers)) 0 c.threads j =
        Program.look (due c) 0 c.threads j := by
      unfold Program.look
      cases there : c.threads[j]? with
      | none => rfl
      | some u => exact kept u (List.mem_of_getElem? there)
    unfold reportedBy executedBy at before ⊢
    show _ = _ + Program.look (atPlaces (Place.reports s.observers)) 0 _ j
    rw [seen, same, countP_entriesBy, countP_entriesBy, before]
    by_cases turn : j = i
    · subst turn
      rw [Program.look_of_getElem? _ _ here]
      simp only [if_pos, due, atPlaces]
      omega
    · simp only [if_neg turn]
      omega
  · have before := h.together
    have run := moved (Place.reports s.observers) rfl
    have same : total (atPlaces (Place.reports s.observers)) c.threads = total (due c) c.threads :=
      congrArg List.sum (List.map_congr_left kept)
    unfold reported executed at before ⊢
    rw [countP_entries, countP_entries]
    show _ = _ + total (atPlaces (Place.reports s.observers)) (ts.set i self ++ spawned)
    omega
  · have before := h.counter
    have run := moved Place.uncounted rfl
    have present := le_total_of_getElem? (atPlaces Place.uncounted) here
    have step :=
      counter (total (atPlaces Place.uncounted) c.threads - v.place.uncounted + reported c)
    unfold jobsInGap reported accepted asSize atPlaces at *
    rw [countP_entries, countP_entries]
    dsimp only
    omega

theorem reportAccount_step (h : ReportAccount c) (ok : ReportsOnce c mv)
    (change : JobChange c mv c') : ReportAccount c' := by
  have jobs := soundJobs_step h.jobs ok change
  have keeps := keepsRegistered_step h.jobs ok change
  cases change with
  | @spurious i v here waits =>
    have again : SoundJobs ⟨c.shared, c.threads.set i v.wake ++ [],
        c.log ++ ([] : List JobEvent).map (Prod.mk i)⟩ := by simpa using jobs
    have next := h.next keeps again (Program.Woken.refl jobScheduler c.threads) here
      (fun u mem => absurd mem List.not_mem_nil) rfl (fun _ => rfl) h.bounded
    simpa using next
  | @manager i a cs v o ts here step woken =>
    obtain ⟨reports, accepts, none, pending⟩ := step.counts
    apply h.next keeps jobs woken here ?_ (step.observers.1 ▸ reports _) ?_ (pending ▸ h.bounded)
    · intro u mem
      obtain ⟨ref, rfl⟩ := step.spawned u mem
      rfl
    · intro k
      rw [pending, none, accepts]
      rfl
  | @own i a cs v o here client step =>
    have fit := h.jobs.fits v (List.mem_of_getElem? here)
    have sound := h.jobs.members v (List.mem_of_getElem? here)
    have again : SoundJobs ⟨o.shared, c.threads.set i (v.atPlace o.self) ++ [],
        c.log ++ o.events.map (Prod.mk i)⟩ := by simpa using jobs
    have next := h.next keeps again (Program.Woken.refl jobScheduler c.threads) here
      (fun u mem => absurd mem List.not_mem_nil) (step.reports fit sound (ok.mayStep here).returns)
      (fun k => by rw [step.accepts]; exact step.counter k) (step.bounded h.bounded)
    simpa using next

end Step

theorem reportAccount_newScheduler (workers pendingMax : Nat) (others : Nat → List Nat)
    (refs : Nat → Nat) (client : Nat) (clients : List Nat) :
    ReportAccount (newScheduler workers pendingMax others refs client clients) where
  jobs := by
    have fits := fits_newScheduler workers pendingMax others refs client clients
    have counted := refsCounted_newScheduler workers pendingMax others refs client clients
    refine ⟨fits, counted, fun job => ?_, fun t mem => absurd mem List.not_mem_nil, fun v mem => ?_⟩
    · have absent : .scheduler ∉ (others job).map Observer.other := by simp
      exact (List.count_eq_zero.mpr absent).trans_le (Nat.zero_le 1)
    · rcases List.mem_cons.mp mem with rfl | mem
      · exact ⟨trivial, fun t hand => by cases hand⟩
      · obtain ⟨t, old, rfl⟩ := List.mem_map.mp mem
        obtain ⟨id, -, rfl⟩ := List.mem_map.mp old
        exact ⟨trivial, fun t hand => by cases hand⟩
  threads i := by
    have blank := total_eq_zero.mp (total_newScheduler
      (f := Place.reports fun job => (others job).map .other) rfl rfl workers pendingMax others
      refs client clients)
    exact ((Nat.zero_add _).trans (Program.look_blank blank i)).symm
  together := by
    rw [due, total_newScheduler rfl rfl]
    rfl
  counter := by
    rw [jobsInGap, total_newScheduler rfl rfl]
    rfl
  bounded := Nat.two_pow_pos 64

/-- Only a worker that runs a job has a call of `OnCompletedJob` due. -/
theorem Member.Fits.reports {v : Member} (fits : v.Fits) (free : ∀ t, v.thread.worker ≠ .running t)
    (lists : Nat → List Observer) : v.place.reports lists = 0 := by
  have none {job : Nat} : ¬RunsJob job v.thread.worker := by
    rintro ⟨t, running, -⟩
    exact free t running
  have worker := fits.worker
  generalize v.place = p at worker
  cases p with
  | notifying | calling | called => exact absurd worker none
  | finished =>
    obtain ⟨t, running⟩ := worker
    exact absurd running (free t)
  | destroying back =>
    cases back with
    | client => rfl
    | notify => exact absurd worker none
    | finish =>
      obtain ⟨t, running⟩ := worker
      exact absurd running (free t)
  | _ => rfl

/-- No worker is in an execution when as many have ended as jobs were accepted. -/
theorem ReportAccount.idle {c : Config JobScheduler Member JobEvent} (h : ReportAccount c)
    {clients : List Nat}
    (reach : Manager.threadManager.Reach (Manager.fresh clients) (managerPart.config c))
    (all : executed c = accepted c) : total (due c) c.threads = 0 := by
  have pushed := Manager.tasksPushed_of_reach reach
  unfold Manager.TasksPushed at pushed
  rw [managerPart.countP_log (q := JobEvent.executes) (fun e => by cases e <;> rfl),
    managerPart.countP_log (q := JobEvent.accepts) (fun e => by cases e <;> rfl)] at pushed
  unfold executed accepted at all
  have hands : total Manager.inHand (c.threads.map Member.thread) = 0 := by
    show total Manager.inHand (managerPart.config c).threads = 0
    omega
  rw [total_eq_zero] at hands ⊢
  intro v mem
  apply (h.jobs.fits v mem).reports
  intro t running
  have none := hands v.thread (List.mem_map_of_mem mem)
  simp [Manager.inHand, Manager.Thread.running, running, Manager.Worker.hands] at none

/-- As long as `Split` does not throw and every job has the scheduler registered once, each
execution of a job calls `OnCompletedJob` once, each call counts one job out, and when
all accepted jobs have been executed the counter is 0 unless one is still uncounted. -/
theorem jobs_reported_once (workers pendingMax : Nat) (others : Nat → List Nat) (refs : Nat → Nat)
    (client : Nat) (clients : List Nat) {c : Config JobScheduler Member JobEvent}
    (run : jobScheduler.Run ReportsOnce
      (newScheduler workers pendingMax others refs client clients) c) :
    (∀ i v, c.threads[i]? = some v →
      reportedBy c i = executedBy c i + v.place.reports c.shared.observers) ∧
    asSize (c.shared.pendingJobCount + jobsInGap c + reported c) = asSize (accepted c) ∧
    (executed c = accepted c → (c.shared.pendingJobCount = 0 ↔ asSize (jobsInGap c) = 0)) := by
  have account := run.invariant
    (reportAccount_newScheduler workers pendingMax others refs client clients)
    fun h ok step => reportAccount_step h ok (jobChange_of_step h.jobs.fits step)
  refine ⟨fun i v here => ?_, account.counter, fun all => ?_⟩
  · rw [account.threads i, Program.look_of_getElem? _ _ here]
    rfl
  · have reach := managerPart.reach run
    rw [managerPart_newScheduler] at reach
    have idle := account.idle reach all
    have together := account.together
    have counter := account.counter
    have bounded := account.bounded
    unfold asSize at counter ⊢
    omega

/-- The job is split, and its scheduler notified. -/
def splitAndReport : List (Move JobAct) :=
  makeScheduler 1 ++ addAndBegin 1 5 ++
    [.run 1 (.split (.returned false)) [], .run 1 .lock [], .run 1 .onCompletedJob [],
      .run 1 .release [], .run 1 .lock [], byWorker 1 (.finish false)]

theorem jobs_reported_once_splitAndReport : ∃ c,
    executed c = 1 ∧ accepted c = 1 ∧
    (∀ i v, c.threads[i]? = some v →
      reportedBy c i = executedBy c i + v.place.reports c.shared.observers) ∧
    asSize (c.shared.pendingJobCount + jobsInGap c + reported c) = asSize (accepted c) ∧
    (executed c = accepted c → (c.shared.pendingJobCount = 0 ↔ asSize (jobsInGap c) = 0)) := by
  obtain ⟨c, run, one, all⟩ := jobScheduler.exists_run ReportsOnce
    (newScheduler 1 0 (fun _ => []) (fun _ => 0) 1 []) (fun c => executed c = 1 ∧ accepted c = 1)
    splitAndReport (by decide)
  exact ⟨c, one, all, jobs_reported_once 1 0 (fun _ => []) (fun _ => 0) 1 [] run⟩

/-- `Split` throws, and the worker swallows it. -/
def splitAndThrow : List (Move JobAct) :=
  makeScheduler 1 ++ addAndBegin 1 5 ++
    [.run 1 (.split .threw) [], byWorker 1 (.finish true)]

/-- An observer before the scheduler throws. -/
def observerThrows : List (Move JobAct) :=
  makeScheduler 1 ++ addAndBegin 1 5 ++
    [.run 1 (.split (.returned true)) [], .run 1 .lock [], .run 1 (.callOther true) [],
      .run 1 .release [], byWorker 1 (.finish true)]

/-- Two clients add the job at once: neither finds the scheduler in its list. -/
def registerTwice : List (Move JobAct) :=
  makeScheduler 2 ++
    [.run 0 (.copy .scheduler) [], .run 1 (.addSplitterJob 5) [], .run 1 .search []] ++
    addAndBegin 2 5 ++
    [.run 1 .append [], .run 2 (.split (.returned true)) [], .run 2 .lock [],
      .run 2 .onCompletedJob [], .run 2 .release [], .run 2 .lock [], .run 2 .onCompletedJob [],
      .run 2 .release [], .run 2 .lock [], byWorker 2 (.finish false)]

/-- An execution calls `OnCompletedJob` never, or twice. -/
theorem reported_never_or_twice :
    (∃ c, jobScheduler.Reach (newScheduler 1 0 (fun _ => []) (fun _ => 0) 1 []) c ∧
      executed c = 1 ∧ accepted c = 1 ∧ jobsInGap c = 0 ∧ reported c = 0 ∧
      c.shared.pendingJobCount = 1) ∧
    (∃ c, jobScheduler.Reach (newScheduler 1 0 (fun _ => [3]) (fun _ => 1) 1 []) c ∧
      executed c = 1 ∧ accepted c = 1 ∧ jobsInGap c = 0 ∧ reported c = 0 ∧
      c.shared.pendingJobCount = 1) ∧
    ∃ c, jobScheduler.Reach (newScheduler 1 0 (fun _ => []) (fun _ => 0) 1 [2]) c ∧
      executed c = 1 ∧ accepted c = 1 ∧ jobsInGap c = 0 ∧ reported c = 2 ∧
      c.shared.pendingJobCount = 2 ^ 64 - 1 :=
  ⟨jobScheduler.exists_reach _ _ splitAndThrow (by decide),
    jobScheduler.exists_reach _ _ observerThrows (by decide),
    jobScheduler.exists_reach _ _ registerTwice (by decide)⟩

end Threads.Splitter
