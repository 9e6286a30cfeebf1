import Threads.Manager.Accounting

/-!
# `RemoveExpiredTasks` without the lock

Workers and `Add` make their expiry pass inside a block that holds `mutex_`. A client
that calls `RemoveExpiredTasks` itself takes no lock, and each access of its loop is a
step of its own between the blocks of the other threads.
-/

namespace Threads.Manager

open Concurrency

/-- Where a thread stands in its own call of `RemoveExpiredTasks`, with the local `now`
and the task it has read from the front of the queue. -/
inductive Pass where
  | outside
  | testing (now : Int)
  | reading (now : Int)
  | examining (now : Int) (t : Task)
  | calling (now : Int) (t : Task)
  | popping (now : Int) (t : Task)
  | counting (now : Int)
  deriving DecidableEq

structure Visitor where
  thread : Thread
  pass : Pass := .outside
  deriving DecidableEq

inductive PassAct where
  | enter
  | test
  | read
  | examine (clock : Int)
  | callBack (raises : Bool)
  | pop
  | count

inductive VisitorAct where
  | locked (a : Act)
  | pass (a : PassAct)

/-- The events of the blocks that hold the lock, the tasks a pass hands to the callback,
and for each of its pops the task it has found expired and the one it removes. -/
inductive PassEvent where
  | locked (e : Event)
  | reported (t : Task)
  | popped (now : Int) (t : Task) (removed : Nat)
  deriving DecidableEq

/-- The front of `tasks_`, by its identity. -/
def Impl.front (s : Impl) : Option Nat := s.tasks.head?.map Task.id

/-! ## The blocks of the pass -/

abbrev PassEffect := Outcome Impl Pass Visitor PassEvent Cond

/-- Back to the client. -/
def returnBlock (s : Impl) : PassEffect :=
  { shared := s, self := .outside, events := [.locked (.returned .removeExpiredTasks)] }

def testBlock (s : Impl) (now : Int) : PassEffect :=
  if s.tasks.isEmpty then returnBlock s else { shared := s, self := .reading now }

def readBlock (s : Impl) (now : Int) : Option PassEffect :=
  match s.tasks with
  | [] => none
  | front :: _ => some { shared := s, self := .examining now front }

/-- The local `now` after the test of `expire_time_`; the clock is read once. -/
def nowAt (now clock : Int) : Int := if now = 0 then clock else now

def examineBlock (s : Impl) (now : Int) (t : Task) (clock : Int) : PassEffect :=
  if t.expiredAt (nowAt now clock) then { shared := s, self := .calling (nowAt now clock) t }
  else returnBlock s

def callBackBlock (s : Impl) (now : Int) (t : Task) (raises : Bool) : PassEffect :=
  if s.expireCallback then
    if raises then
      { shared := s
        self := .outside
        events := [.reported t, .locked (.threw .removeExpiredTasks .callback)] }
    else { shared := s, self := .popping now t, events := [.reported t] }
  else { shared := s, self := .popping now t }

def popBlock (s : Impl) (now : Int) (t : Task) : Option PassEffect :=
  match s.tasks with
  | [] => none
  | front :: rest =>
    some
      { shared := { s with tasks := rest }
        self := .counting now
        events := [.popped now t front.id] }

def countBlock (s : Impl) (now : Int) : PassEffect :=
  { shared := { s with expiredCount := s.expiredCount + 1 }, self := .testing now }

/-- `front()` and `pop()` of an empty queue have no block. -/
def passBlock (s : Impl) : Pass → PassAct → Option PassEffect
  | .outside, .enter => some { shared := s, self := .testing 0 }
  | .testing now, .test => some (testBlock s now)
  | .reading now, .read => readBlock s now
  | .examining now t, .examine clock => some (examineBlock s now t clock)
  | .calling now t, .callBack raises => some (callBackBlock s now t raises)
  | .popping now t, .pop => popBlock s now t
  | .counting now, .count => some (countBlock s now)
  | _, _ => none

/-- What a step of a pass can do, branch by branch. -/
inductive PassStep (s : Impl) : Pass → PassAct → PassEffect → Prop
  | enters : PassStep s .outside .enter { shared := s, self := .testing 0 }
  | ends {now} (empty : s.tasks = []) : PassStep s (.testing now) .test (returnBlock s)
  | goesOn {now} (some : s.tasks ≠ []) :
      PassStep s (.testing now) .test { shared := s, self := .reading now }
  | reads {now front rest} (queue : s.tasks = front :: rest) :
      PassStep s (.reading now) .read { shared := s, self := .examining now front }
  | finds {now t clock} (expired : t.expiredAt (nowAt now clock) = true) :
      PassStep s (.examining now t) (.examine clock)
        { shared := s, self := .calling (nowAt now clock) t }
  | spares {now t clock} (fresh : t.expiredAt (nowAt now clock) = false) :
      PassStep s (.examining now t) (.examine clock) (returnBlock s)
  | raised {now t} (callback : s.expireCallback = true) :
      PassStep s (.calling now t) (.callBack true)
        { shared := s
          self := .outside
          events := [.reported t, .locked (.threw .removeExpiredTasks .callback)] }
  | reports {now t} (callback : s.expireCallback = true) :
      PassStep s (.calling now t) (.callBack false)
        { shared := s, self := .popping now t, events := [.reported t] }
  | silent {now t raises} (noCallback : s.expireCallback = false) :
      PassStep s (.calling now t) (.callBack raises) { shared := s, self := .popping now t }
  | pops {now t front rest} (queue : s.tasks = front :: rest) :
      PassStep s (.popping now t) .pop
        { shared := { s with tasks := rest }
          self := .counting now
          events := [.popped now t front.id] }
  | counts {now} : PassStep s (.counting now) .count (countBlock s now)

theorem passStep_of_block {s : Impl} {p : Pass} {a : PassAct} {o : PassEffect}
    (h : passBlock s p a = some o) : PassStep s p a o := by
  unfold passBlock at h
  split at h
  case h_1 =>
    obtain rfl := Option.some.inj h
    exact .enters
  case h_2 =>
    obtain rfl := Option.some.inj h
    unfold testBlock
    split
    · exact .ends (by simpa using ‹s.tasks.isEmpty = true›)
    · exact .goesOn (by simpa using ‹¬s.tasks.isEmpty = true›)
  case h_3 =>
    unfold readBlock at h
    split at h
    · cases h
    · obtain rfl := Option.some.inj h
      exact .reads ‹_›
  case h_4 =>
    obtain rfl := Option.some.inj h
    unfold examineBlock
    split
    · exact .finds ‹_›
    · exact .spares (by simpa using ‹¬Task.expiredAt _ _ = true›)
  case h_5 raises =>
    obtain rfl := Option.some.inj h
    unfold callBackBlock
    split
    · cases raises
      · exact .reports ‹_›
      · exact .raised ‹_›
    · exact .silent (by simpa using ‹¬s.expireCallback = true›)
  case h_6 =>
    unfold popBlock at h
    split at h
    · cases h
    · obtain rfl := Option.some.inj h
      exact .pops ‹_›
  case h_7 =>
    obtain rfl := Option.some.inj h
    exact .counts
  case h_8 => cases h

/-- A step of a pass notifies nobody and starts no thread. -/
theorem PassStep.quiet {s : Impl} {p : Pass} {a : PassAct} {o : PassEffect} (h : PassStep s p a o) :
    o.signals = [] ∧ o.spawned = [] := by
  cases h <;> exact ⟨rfl, rfl⟩

/-! ## The program -/

def Visitor.wake (v : Visitor) : Visitor := { v with thread := v.thread.wake }

def Visitor.atPass (v : Visitor) (p : Pass) : Visitor := { v with pass := p }

/-- A thread that only takes the lock. -/
def Visitor.ofThread (t : Thread) : Visitor := { thread := t }

/-- The direct call of `RemoveExpiredTasks` as one step. -/
def Act.removesExpired : Act → Bool
  | .call (.removeExpiredTasks _) => true
  | _ => false

def lockedBlock (s : Impl) (v : Visitor) (a : Act) :
    Option (Outcome Impl Visitor Visitor PassEvent Cond) :=
  if v.pass = .outside ∧ a.removesExpired = false then
    (threadBlock s v.thread a).map fun o =>
      { shared := o.shared
        self := .ofThread o.self
        signals := o.signals
        spawned := o.spawned.map .ofThread
        events := o.events.map .locked }
  else none

/-- The threads around one `ThreadManager::Impl`, with the direct calls of
`RemoveExpiredTasks` taken access by access. -/
def unlockedManager : Program Impl Visitor VisitorAct PassEvent Cond where
  waitsOn v := v.thread.waitsOn
  wake := Visitor.wake
  wake_awake v := threadManager.wake_awake v.thread
  block s v a :=
    if s.terminated then none
    else match a with
      | .locked a => lockedBlock s v a
      | .pass a =>
        if v.thread.call = .none ∧ v.thread.worker.makesCalls = true then
          (passBlock s v.pass a).map (.mapSelf v.atPass)
        else none

def visitors (clients : List Nat) : Config Impl Visitor PassEvent where
  shared := {}
  threads := (fresh clients).threads.map .ofThread

/-- The task a pass has found expired and is going to pop, and the time it did. -/
def Pass.found : Pass → Option (Int × Task)
  | .calling now t | .popping now t => some (now, t)
  | _ => none

/-- One for a pass between finding a task expired and popping it. -/
def Pass.condemns (p : Pass) : Nat := if p.found.isSome then 1 else 0

def condemning (v : Visitor) : Nat := v.pass.condemns

/-- Each pop has removed the task that the pass had found expired, and the next pop of
each pass will. -/
structure PopsTested (c : Config Impl Visitor PassEvent) : Prop where
  past : ∀ e ∈ c.log, ∀ now t task, e.2 = .popped now t task →
    task = t.id ∧ t.expiredAt now = true
  next : ∀ v ∈ c.threads, ∀ now t, v.pass.found = some (now, t) →
    c.shared.front = some t.id ∧ t.expiredAt now = true

/-- What the test of `expire_time_` condemns at this clock reading. -/
def Pass.finds (clock : Int) : Pass → Option Task
  | .examining now t => if t.expiredAt (nowAt now clock) then some t else none
  | _ => none

/-- The block takes a task off the queue. -/
def Act.removes (s : Impl) : Act → Bool
  | .worker a => (a.pass s).any fun env =>
    !s.tasks.isEmpty && !((s.expiry env).raised && (s.expiry env).expired.isEmpty)
  | .call (.add _ env _) => s.state == .started && !(s.expiry env).expired.isEmpty
  | .call .removeNextPending => s.state != .started && !s.tasks.isEmpty
  | _ => false

/-- A task that a pass finds expired is still at the front, and no other thread takes a
task off the queue until the pass has popped it. -/
def Undisturbed (c : Config Impl Visitor PassEvent) : Move VisitorAct → Prop
  | .run i (.pass (.examine clock)) _ => ∀ v ∈ c.threads[i]?, ∀ t ∈ v.pass.finds clock,
    c.shared.front = some t.id
  | .run _ (.pass .pop) _ => total condemning c.threads ≤ 1
  | .run _ (.locked a) _ => a.removes c.shared = true → total condemning c.threads = 0
  | _ => True

instance (c : Config Impl Visitor PassEvent) (mv : Move VisitorAct) :
    Decidable (Undisturbed c mv) := by
  unfold Undisturbed
  split <;> infer_instance

/-- The callback does not throw in a pass. -/
def Returns : Move VisitorAct → Prop
  | .run _ (.pass (.callBack raises)) _ => raises = false
  | _ => True

instance : DecidablePred Returns := fun mv => by
  unfold Returns
  split <;> infer_instance

/-- A step is a spurious wakeup, a block that holds the lock, or a step of a pass. -/
inductive VisitorChange (c : Config Impl Visitor PassEvent) :
    Move VisitorAct → Config Impl Visitor PassEvent → Prop
  | spurious {i v} (here : c.threads[i]? = some v) (waits : v.thread.waitsOn ≠ none) :
      VisitorChange c (.spurious i) { c with threads := c.threads.set i v.wake }
  | locked {i a cs v o ts} (here : c.threads[i]? = some v) (outside : v.pass = .outside)
      (other : a.removesExpired = false) (fires : threadBlock c.shared v.thread a = some o)
      (woken : unlockedManager.Woken c.threads ts) :
      VisitorChange c (.run i (.locked a) cs)
        ⟨o.shared, ts.set i (.ofThread o.self) ++ o.spawned.map .ofThread,
          c.log ++ (o.events.map PassEvent.locked).map (Prod.mk i)⟩
  | pass {i a cs v o} (here : c.threads[i]? = some v) (idle : v.thread.call = .none)
      (makesCalls : v.thread.worker.makesCalls = true) (step : PassStep c.shared v.pass a o) :
      VisitorChange c (.run i (.pass a) cs)
        ⟨o.shared, c.threads.set i (v.atPass o.self), c.log ++ o.events.map (Prod.mk i)⟩

theorem visitorChange_of_step {c c' : Config Impl Visitor PassEvent} {mv : Move VisitorAct}
    (h : unlockedManager.Step c mv c') : VisitorChange c mv c' := by
  cases h with
  | spurious here waits => exact .spurious here waits
  | @run i a cs v o ts here fires delivered =>
    have woken := unlockedManager.deliver_woken delivered
    simp only [unlockedManager] at fires
    split at fires
    · cases fires
    · cases a with
      | locked a =>
        simp only [lockedBlock] at fires
        split at fires
        · rename_i inside
          obtain ⟨o, block, rfl⟩ := Option.map_eq_some_iff.mp fires
          exact .locked here inside.1 inside.2 block woken
        · cases fires
      | pass a =>
        dsimp only at fires
        split at fires
        · rename_i free
          obtain ⟨o, block, rfl⟩ := Option.map_eq_some_iff.mp fires
          have step := passStep_of_block block
          obtain ⟨silent, childless⟩ := step.quiet
          have same : ts = c.threads := by
            simp only [Outcome.mapSelf, silent] at delivered
            exact (Option.some.inj delivered).symm
          subst same
          have next : VisitorChange c (.run _ (.pass _) cs) _ := .pass here free.1 free.2 step
          simpa only [Outcome.mapSelf, childless, List.append_nil] using next
        · cases fires

/-! ## Who takes tasks off the queue -/

theorem takenTask_expiry (s : Impl) (env : Surroundings) (j : Nat) :
    (expiryEntries s env j).filterMap takenTask =
      (s.expiry env).expired.map fun t => (t.id, Fate.expired) :=
  expiryEntries_expired s env j (fun t => (t, Fate.expired)) (fun _ => rfl) fun _ _ => rfl

theorem takes_workBlock {s : Impl} {env : Surroundings} (some : s.tasks ≠ []) (j : Nat) :
    ((workBlock s env).events.map (Prod.mk j)).filterMap takenTask = [] ↔
      (!((s.expiry env).raised && (s.expiry env).expired.isEmpty)) = false := by
  have pass := takenTask_expiry s env j
  have split_ := removeExpiredTasks_tasks s env
  unfold workBlock
  dsimp only
  split
  · rename_i raised
    rw [show ((s.expiryEvents env).map (Prod.mk j)).filterMap takenTask = _ from pass]
    simp [raised]
  · rename_i calm
    simp only [Bool.not_eq_true] at calm
    split
    · rename_i none
      rw [none, List.append_nil] at split_
      rw [show ((s.expiryEvents env).map (Prod.mk j)).filterMap takenTask = _ from pass, split_]
      simp [calm, some]
    · simp [calm, takenTask]

theorem WorkerStep.takes {s : Impl} {ref : ThreadRef} {w : Worker} {a : WorkerAct}
    {o : Effect Worker} (h : WorkerStep s ref w a o) (j : Nat) :
    (o.events.map (Prod.mk j)).filterMap takenTask = [] ↔ (Act.worker a).removes s = false := by
  have working {env : Surroundings} (some : s.tasks ≠ []) (pass : a.pass s = Option.some env) :
      (Act.worker a).removes s = !((s.expiry env).raised && (s.expiry env).expired.isEmpty) := by
    simp [Act.removes, pass, some]
  cases h with
  | parks _ empty | parksAgain _ empty => simp [Act.removes, empty]
  | leaves inactive | wakesAndLeaves inactive =>
    simp [Act.removes, WorkerAct.pass, inactive, takenTask]
  | works active some =>
    rw [working some (if_pos active)]
    exact takes_workBlock some j
  | wakesAndWorks active some =>
    rw [working some (if_pos active)]
    exact takes_workBlock (s := { s with idleCount := decrement s.idleCount }) some j
  | _ => simp [Act.removes, WorkerAct.pass, takenTask, announceBlock, exitBlock]

theorem CallStep.takes {s : Impl} {id : Nat} {d : Call} {a : CallAct} {o : Effect Call}
    (h : CallStep s id d a o) (other : (Act.call a).removesExpired = false) (j : Nat) :
    (o.events.map (Prod.mk j)).filterMap takenTask = [] ↔ (Act.call a).removes s = false := by
  have beside {es : List Event} (quiet : ∀ e ∈ es, takenTask (j, e) = none) :
      (es.map (Prod.mk j)).filterMap takenTask = [] := by
    rw [List.filterMap_eq_nil_iff]
    intro e mem
    obtain ⟨e, old, rfl⟩ := List.mem_map.mp mem
    exact quiet e old
  have pass (r : Request) (env : Surroundings) (now : Int) (es : List Event)
      (opened : s.state = .started) (quiet : ∀ e ∈ es, takenTask (j, e) = none) :
      ((s.expiryEvents env ++ es).map (Prod.mk j)).filterMap takenTask = [] ↔
        (Act.call (.add r env now)).removes s = false := by
    rw [List.map_append, List.filterMap_append, beside quiet, List.append_nil,
      show ((s.expiryEvents env).map (Prod.mk j)).filterMap takenTask = _ from
        takenTask_expiry s env j]
    simp [Act.removes, opened]
  cases h with
  | addRefused closed => simp [Act.removes, closed, takenTask]
  | @addParks r env now opened =>
    have block := pass r env now [] opened (fun u mem => absurd mem List.not_mem_nil)
    rwa [List.append_nil] at block
  | addRaised opened | addTooMany opened | adds opened =>
    exact pass _ _ _ _ opened (by simp [takenTask])
  | removeNextPending =>
    unfold removeNextPendingBlock
    split
    · rename_i opened
      simp [Act.removes, opened, takenTask]
    · rename_i closed
      split
      · rename_i empty
        simp [Act.removes, empty, takenTask]
      · rename_i queue
        simp [Act.removes, closed, queue, takenTask]
  | removeExpiredTasks => cases other
  | @started workers => cases workers <;> exact iff_of_true rfl rfl
  | @startAgain workers | @resumeStart workers =>
    unfold startWaitBlock
    split <;> cases workers <;> exact iff_of_true rfl rfl
  | @startThread object objects created => cases created <;> exact iff_of_true rfl rfl
  | @removed caller => cases caller <;> exact iff_of_true rfl rfl
  | remove =>
    unfold removeBlock
    split <;> exact iff_of_true rfl rfl
  | _ => exact iff_of_true rfl rfl

/-! ## The history of the queue -/

/-- One for a pass between its pop and its count. -/
def Pass.uncounted : Pass → Nat
  | .counting _ => 1
  | _ => 0

def uncounted (v : Visitor) : Nat := v.pass.uncounted

/-- What an entry says about the queue. A pop takes a task off it as expired. -/
def settle : Nat × PassEvent → Option Entry
  | (i, .locked e) => some (i, e)
  | (i, .popped _ _ task) => some (i, .expired task false)
  | (_, .reported _) => none

/-- The configuration with the pops of the passes counted at once. -/
def atomically (c : Config Impl Visitor PassEvent) : Config Impl Thread Event where
  shared := { c.shared with expiredCount := c.shared.expiredCount + total uncounted c.threads }
  threads := c.threads.map Visitor.thread
  log := c.log.filterMap settle

theorem accounts_threadBlock {s : Impl} {t : Thread} {a : Act} {o : Effect Thread}
    (h : threadBlock s t a = some o) (ready : t.worker.ready)
    (waiting : ∀ task ∈ s.tasks, task.state = .waiting) (j : Nat) :
    Accounts j s t.worker.hands o.shared o.self.worker.hands (o.events.map (Prod.mk j)) ∧
      o.self.worker.ready ∧ ∀ u ∈ o.spawned, u.worker = .entry := by
  cases a with
  | worker a =>
    simp only [threadBlock] at h
    split at h
    · obtain ⟨o, block, rfl⟩ := Option.map_eq_some_iff.mp h
      have step := workerStep_of_block block
      refine ⟨step.accounts ready j, step.ready waiting, ?_⟩
      simp [Outcome.mapSelf, step.spawned]
    · cases h
  | call a =>
    simp only [threadBlock] at h
    split at h
    · obtain ⟨o, block, rfl⟩ := Option.map_eq_some_iff.mp h
      have step := callStep_of_block block
      refine ⟨step.accounts j t.worker.hands, ready, fun u mem => ?_⟩
      rcases step.spawned with none | ⟨ref, one⟩
      · simp [Outcome.mapSelf, none] at mem
      · simp only [Outcome.mapSelf, one, List.mem_singleton] at mem
        rw [mem]
    · cases h

/-- Passes that have still to count leave the accounts of the others as they are. -/
theorem Accounts.shift {j : Nat} {s s' : Impl} {h h' : Hands} {es : List Entry}
    (block : Accounts j s h s' h' es) (k : Nat) :
    Accounts j { s with expiredCount := s.expiredCount + k } h
      { s' with expiredCount := s'.expiredCount + k } h' es where
  queue := block.queue
  fresh := block.fresh
  waiting := block.waiting
  held := block.held
  running := block.running
  counted := by
    have counted := block.counted
    dsimp only
    omega
  adds := block.adds

theorem PassStep.accounts {s : Impl} {p : Pass} {a : PassAct} {o : PassEffect}
    (step : PassStep s p a o) (j : Nat) (h : Hands) {k k' : Nat}
    (balance : k' + p.uncounted = k + o.self.uncounted) :
    Accounts j { s with expiredCount := s.expiredCount + k } h
      { o.shared with expiredCount := o.shared.expiredCount + k' } h
      ((o.events.map (Prod.mk j)).filterMap settle) := by
  have beside (es : List Event) (quiet : ∀ e ∈ es, e.besideQueue = true) :
      Accounts j { s with expiredCount := s.expiredCount + k } h
        { s with expiredCount := s.expiredCount + k } h (es.map (Prod.mk j)) :=
    accounts_beside rfl rfl rfl quiet
  cases step with
  | ends | spares =>
    obtain rfl : k' = k := balance
    exact beside [.returned .removeExpiredTasks] (by simp [Event.besideQueue])
  | raised =>
    obtain rfl : k' = k := balance
    exact beside [.threw .removeExpiredTasks .callback] (by simp [Event.besideQueue])
  | @pops now t front rest queue =>
    obtain rfl : k' = k + 1 := balance
    refine ⟨?_, (List.append_nil _).symm, ?_, List.append_nil _, List.append_nil _, ?_, .nothing⟩
    · simp [settle, takenTask, pushedTask, queue]
    · intro waiting t mem
      exact waiting t (queue ▸ List.mem_cons_of_mem front mem)
    · show s.expiredCount + k + 1 = s.expiredCount + (k + 1) + 0
      omega
  | counts =>
    have counted : k' + 1 = k := balance
    have same : s.expiredCount + 1 + k' = s.expiredCount + k := by omega
    dsimp only [countBlock]
    rw [same]
    exact beside [] (fun u mem => absurd mem List.not_mem_nil)
  | _ =>
    obtain rfl : k' = k := balance
    exact beside [] (fun u mem => absurd mem List.not_mem_nil)

theorem PassStep.settles {s : Impl} {p : Pass} {a : PassAct} {o : PassEffect}
    (step : PassStep s p a o) (j : Nat) :
    ∃ es : List Event, (o.events.map (Prod.mk j)).filterMap settle = es.map (Prod.mk j) := by
  cases step with
  | ends | spares => exact ⟨[.returned .removeExpiredTasks], rfl⟩
  | raised => exact ⟨[.threw .removeExpiredTasks .callback], rfl⟩
  | @pops now t front => exact ⟨[.expired front.id false], rfl⟩
  | _ => exact ⟨[], rfl⟩

theorem woken_thread {ts us : List Visitor} (h : unlockedManager.Woken ts us) :
    threadManager.Woken (ts.map Visitor.thread) (us.map Visitor.thread) := by
  induction h with
  | nil => exact .nil
  | cons first _ ih =>
    refine .cons ?_ ih
    rcases first with rfl | ⟨waits, rfl⟩
    · exact .inl rfl
    · exact .inr ⟨waits, rfl⟩

theorem settle_locked (es : List Event) (j : Nat) :
    ((es.map PassEvent.locked).map (Prod.mk j)).filterMap settle = es.map (Prod.mk j) := by
  rw [List.map_map, List.filterMap_map]
  exact congrFun (List.filterMap_eq_map (f := Prod.mk j)) es

theorem stable_uncounted : unlockedManager.Stable uncounted := fun _ _ => rfl

section Step

variable {c c' : Config Impl Visitor PassEvent} {mv : Move VisitorAct}

/-- The queue and its history stay in balance whatever the passes do. -/
theorem atomically_step (h : QueueAccount (atomically c)) (change : VisitorChange c mv c') :
    QueueAccount (atomically c') := by
  cases change with
  | @spurious i v here waits =>
    have there : (c.threads.map Visitor.thread)[i]? = some v.thread := by simp [here]
    have next := queueAccount_step h (.spurious there waits)
    have same := unlockedManager.total_spurious stable_uncounted here waits
    have eq : atomically { c with threads := c.threads.set i v.wake } =
        { atomically c with threads := (c.threads.map Visitor.thread).set i v.thread.wake } := by
      simp only [atomically, List.map_set]
      rw [show total uncounted (c.threads.set i v.wake) = _ from same]
      rfl
    rw [eq]
    exact next
  | @locked i a cs v o ts here outside other fires woken =>
    have there : (c.threads.map Visitor.thread)[i]? = some v.thread := by simp [here]
    have ready := h.ready v.thread (List.mem_of_getElem? there)
    obtain ⟨block, still, started⟩ := accounts_threadBlock fires ready h.waiting i
    have next := h.next o.spawned (woken_thread woken) there (block.shift _) still started
    have moved := unlockedManager.total_run stable_uncounted woken here (.ofThread o.self)
      (o.spawned.map .ofThread)
    have none : total uncounted (o.spawned.map Visitor.ofThread) = 0 := by
      refine total_eq_zero.mpr fun u mem => ?_
      obtain ⟨t, -, rfl⟩ := List.mem_map.mp mem
      rfl
    have own : uncounted v = 0 ∧ uncounted (.ofThread o.self) = 0 := by
      unfold uncounted
      rw [outside]
      exact ⟨rfl, rfl⟩
    have same : total uncounted (ts.set i (.ofThread o.self) ++ o.spawned.map .ofThread) =
        total uncounted c.threads := by omega
    have threads :
        (ts.set i (.ofThread o.self) ++ o.spawned.map Visitor.ofThread).map Visitor.thread =
          (ts.map Visitor.thread).set i o.self ++ o.spawned := by
      rw [List.map_append, List.map_set, List.map_map]
      exact congrArg _ (List.map_id _)
    unfold atomically
    rw [threads, same, List.filterMap_append, settle_locked]
    exact next
  | @pass i a cs v o here idle makesCalls step =>
    have there : (c.threads.map Visitor.thread)[i]? = some v.thread := by simp [here]
    have ready := h.ready v.thread (List.mem_of_getElem? there)
    have moved := total_set uncounted here (v.atPass o.self)
    have balance : total uncounted (c.threads.set i (v.atPass o.self)) + v.pass.uncounted =
        total uncounted c.threads + o.self.uncounted := moved
    obtain ⟨es, eq⟩ := step.settles i
    have block := step.accounts i v.thread.worker.hands balance
    rw [eq] at block
    have noneStarted : ∀ u ∈ ([] : List Thread), u.worker = .entry := fun _ mem =>
      absurd mem List.not_mem_nil
    have next := h.next [] (Program.Woken.refl _ _) there block ready noneStarted
    simp only [atomically, List.map_set, List.filterMap_append, eq]
    rw [List.append_nil] at next
    exact next

end Step

/-! ## One step -/

theorem takes_threadBlock {s : Impl} {t : Thread} {a : Act} {o : Effect Thread}
    (h : threadBlock s t a = some o) (other : a.removesExpired = false) (j : Nat) :
    (o.events.map (Prod.mk j)).filterMap takenTask = [] ↔ a.removes s = false := by
  cases a with
  | worker a =>
    simp only [threadBlock] at h
    split at h
    · obtain ⟨o, block, rfl⟩ := Option.map_eq_some_iff.mp h
      exact (workerStep_of_block block).takes j
    · cases h
  | call a =>
    simp only [threadBlock] at h
    split at h
    · obtain ⟨o, block, rfl⟩ := Option.map_eq_some_iff.mp h
      exact (callStep_of_block block).takes other j
    · cases h

theorem front_eq_some {s : Impl} {x : Nat} :
    s.front = some x ↔ ∃ rest, s.tasks.map Task.id = x :: rest := by
  unfold Impl.front
  rw [← List.head?_map]
  exact List.head?_eq_some_iff

namespace QueueAccount

variable {c : Config Impl Thread Event}

theorem queued_nodup (h : QueueAccount c) : (c.shared.tasks.map Task.id).Nodup := by
  have once := h.once
  rw [h.ledger.balanced] at once
  exact once.of_append_right

theorem not_taken_of_queued (h : QueueAccount c) {task : Nat}
    (queued : task ∈ c.shared.tasks.map Task.id) (fate : Fate) :
    (task, fate) ∉ c.log.filterMap takenTask := by
  intro taken
  have once := h.once
  rw [h.ledger.balanced] at once
  exact List.disjoint_of_nodup_append once (List.mem_map_of_mem taken) queued

end QueueAccount

theorem condemning_of_found {v : Visitor} {now : Int} {t : Task}
    (found : v.pass.found = some (now, t)) : condemning v = 1 := by
  unfold condemning Pass.condemns
  rw [found]
  rfl

theorem exists_found {v : Visitor} (some : 0 < condemning v) :
    ∃ now t, v.pass.found = Option.some (now, t) := by
  unfold condemning Pass.condemns at some
  split at some
  · obtain ⟨⟨now, t⟩, found⟩ := Option.isSome_iff_exists.mp ‹_›
    exact ⟨now, t, found⟩
  · cases some

section Step

variable {c c' : Config Impl Visitor PassEvent} {mv : Move VisitorAct}

/-- The queue is in balance, and so far all pops were tested. -/
structure PassAccount (c : Config Impl Visitor PassEvent) : Prop where
  queue : QueueAccount (atomically c)
  tested : PopsTested c

variable {i : Nat} {v : Visitor}

/-- A block under the lock takes nothing off the queue while a pass counts on its front. -/
theorem popsTested_locked (h : PassAccount c) {a : Act} {o : Effect Thread} {ts : List Visitor}
    (here : c.threads[i]? = some v) (other : a.removesExpired = false)
    (fires : threadBlock c.shared v.thread a = some o)
    (woken : unlockedManager.Woken c.threads ts)
    (ok : a.removes c.shared = true → total condemning c.threads = 0) :
    PopsTested ⟨o.shared, ts.set i (.ofThread o.self) ++ o.spawned.map .ofThread,
      c.log ++ (o.events.map PassEvent.locked).map (Prod.mk i)⟩ := by
  obtain ⟨queue, past, next⟩ := h
  refine ⟨fun e mem now t task eq => ?_, fun u mem now t found => ?_⟩
  · rcases List.mem_append.mp mem with old | new
    · exact past e old now t task eq
    · obtain ⟨_, there, rfl⟩ := List.mem_map.mp new
      obtain ⟨_, -, rfl⟩ := List.mem_map.mp there
      cases eq
  · rcases unlockedManager.mem_run woken mem with rfl | spawned | ⟨j, w, apart, there, same⟩
    · cases found
    · obtain ⟨_, -, rfl⟩ := List.mem_map.mp spawned
      cases found
    · have pass : u.pass = w.pass := by
        rcases same with rfl | ⟨-, rfl⟩ <;> rfl
      rw [pass] at found
      obtain ⟨front, expired⟩ := next w (List.mem_of_getElem? there) now t found
      have present := le_total_of_getElem? condemning there
      rw [condemning_of_found found] at present
      have keeps : a.removes c.shared = false := by
        by_contra removes
        have none : total condemning c.threads = 0 := ok (by simpa using removes)
        omega
      have ready := queue.ready v.thread (List.mem_map_of_mem (List.mem_of_getElem? here))
      have block := (accounts_threadBlock fires ready queue.waiting i).1.queue
      rw [(takes_threadBlock fires other i).mpr keeps] at block
      obtain ⟨rest, ids⟩ := front_eq_some.mp front
      rw [ids] at block
      exact ⟨front_eq_some.mpr ⟨_, block⟩, expired⟩

/-- A block of a pass that keeps the queue, and finds nothing but its front. -/
theorem PopsTested.kept (h : PopsTested c) {s : Impl} {p : Pass} {es : List PassEvent}
    (tasks : s.tasks = c.shared.tasks)
    (own : ∀ now t, p.found = some (now, t) → c.shared.front = some t.id ∧ t.expiredAt now = true)
    (silent : ∀ e ∈ es, ∀ now t task, e ≠ .popped now t task) :
    PopsTested ⟨s, c.threads.set i (v.atPass p), c.log ++ es.map (Prod.mk i)⟩ := by
  have front : s.front = c.shared.front := by
    unfold Impl.front
    rw [tasks]
  refine ⟨fun e mem now t task eq => ?_, fun u mem now t found => ?_⟩
  · rcases List.mem_append.mp mem with old | new
    · exact h.past e old now t task eq
    · obtain ⟨_, there, rfl⟩ := List.mem_map.mp new
      exact absurd eq (silent _ there now t task)
  · dsimp only
    rw [front]
    rcases List.mem_or_eq_of_mem_set mem with old | rfl
    · exact h.next u old now t found
    · exact own now t found

/-- The task that a pass pops is the one it has found, and no other pass has found one. -/
theorem popsTested_pops (h : PopsTested c) {now : Int} {t front : Task} {rest : List Task}
    (here : c.threads[i]? = some v) (place : v.pass = .popping now t)
    (queued : c.shared.tasks = front :: rest) (ok : total condemning c.threads ≤ 1) :
    PopsTested ⟨{ c.shared with tasks := rest }, c.threads.set i (v.atPass (.counting now)),
      c.log ++ [(i, .popped now t front.id)]⟩ := by
  have found : v.pass.found = some (now, t) := by
    rw [place]
    rfl
  obtain ⟨head, expired⟩ := h.next v (List.mem_of_getElem? here) now t found
  have own : front.id = t.id := by
    unfold Impl.front at head
    rw [queued] at head
    exact Option.some.inj head
  have alone : total condemning (c.threads.set i (v.atPass (.counting now))) = 0 := by
    have moved := total_set condemning here (v.atPass (.counting now))
    have one : condemning v = 1 := condemning_of_found found
    have none : condemning (v.atPass (.counting now)) = 0 := rfl
    omega
  refine ⟨fun e mem now' t' task eq => ?_, fun u mem now' t' found => ?_⟩
  · rcases List.mem_append.mp mem with old | new
    · exact h.past e old now' t' task eq
    · rw [List.mem_singleton.mp new] at eq
      obtain ⟨rfl, rfl, rfl⟩ := PassEvent.popped.inj eq
      exact ⟨own, expired⟩
  · have zero := total_eq_zero.mp alone u mem
    rw [condemning_of_found found] at zero
    cases zero

theorem popsTested_step (h : PassAccount c) (ok : Undisturbed c mv)
    (change : VisitorChange c mv c') : PopsTested c' := by
  cases change with
  | @spurious i v here waits =>
    refine ⟨h.tested.past, fun u mem now t found => ?_⟩
    rcases List.mem_or_eq_of_mem_set mem with old | rfl
    · exact h.tested.next u old now t found
    · exact h.tested.next v (List.mem_of_getElem? here) now t found
  | locked here outside other fires woken => exact popsTested_locked h here other fires woken ok
  | @pass i a cs v o here idle makesCalls step =>
    have before := h.tested.next v (List.mem_of_getElem? here)
    have unfound {p : Pass} (none : p.found = .none) : ∀ now t, p.found = some (now, t) →
        c.shared.front = some t.id ∧ t.expiredAt now = true := by
      intro now t found
      rw [none] at found
      cases found
    have nothing : ∀ e ∈ ([] : List PassEvent), ∀ now t task, e ≠ .popped now t task :=
      fun _ mem => absurd mem List.not_mem_nil
    generalize place : v.pass = p at step before
    cases step with
    | finds expired =>
      refine h.tested.kept rfl (fun now t found => ?_) nothing
      obtain ⟨rfl, rfl⟩ := Prod.mk.inj (Option.some.inj found)
      have front := ok v here _ (by rw [place]; exact if_pos expired)
      exact ⟨front, expired⟩
    | raised => exact h.tested.kept rfl (unfound rfl) (by simp)
    | reports => exact h.tested.kept rfl before (by simp)
    | silent => exact h.tested.kept rfl before nothing
    | pops queued => exact popsTested_pops h.tested here place queued ok
    | ends | spares => exact h.tested.kept rfl (unfound rfl) (by simp [returnBlock])
    | _ => exact h.tested.kept rfl (unfound rfl) nothing

/-- A task that another thread has taken off the queue is not there to be popped. -/
theorem pop_goes_wrong (h : PassAccount c) (queue' : QueueAccount (atomically c'))
    (bad : ¬ Undisturbed c mv) (change : VisitorChange c mv c') : ¬ PopsTested c' := by
  rintro ⟨-, next'⟩
  cases change with
  | spurious => exact bad trivial
  | @locked i a cs v o ts here outside other fires woken =>
    simp only [Undisturbed, Classical.not_imp] at bad
    obtain ⟨removes, some⟩ := bad
    obtain ⟨j, u, there, pos⟩ := exists_of_total_pos (Nat.pos_of_ne_zero some)
    obtain ⟨now, t, found⟩ := exists_found pos
    have apart : j ≠ i := by
      rintro rfl
      obtain rfl := Option.some.inj (here.symm.trans there)
      rw [outside] at found
      cases found
    obtain ⟨u', after, same⟩ := unlockedManager.getElem?_run_other woken apart there
      (.ofThread o.self) (o.spawned.map .ofThread)
    have pass : u'.pass = u.pass := by
      rcases same with rfl | ⟨-, rfl⟩ <;> rfl
    have front := (h.tested.next u (List.mem_of_getElem? there) now t found).1
    have front' := (next' u' (List.mem_of_getElem? after) now t (pass ▸ found)).1
    obtain ⟨rest, ids⟩ := front_eq_some.mp front
    obtain ⟨rest', ids'⟩ := front_eq_some.mp front'
    have ready := h.queue.ready v.thread (List.mem_map_of_mem (List.mem_of_getElem? here))
    have block := (accounts_threadBlock fires ready h.queue.waiting i).1.queue
    have takes := (takes_threadBlock fires other i).not.mpr (by simp [removes])
    obtain ⟨⟨task, fate⟩, others, taken⟩ := List.exists_cons_of_ne_nil takes
    rw [taken, ids] at block
    obtain rfl : task = t.id := (List.cons.inj block).1
    have queued : t.id ∈ o.shared.tasks.map Task.id := ids' ▸ List.mem_cons_self
    apply queue'.not_taken_of_queued queued fate
    unfold atomically
    rw [List.filterMap_append, List.filterMap_append, settle_locked, taken]
    exact List.mem_append_right _ List.mem_cons_self
  | @pass i a cs v o here idle makesCalls step =>
    have inside : i < c.threads.length := (List.getElem?_eq_some_iff.mp here).1
    generalize place : v.pass = p at step
    cases step with
    | finds expired =>
      apply bad
      intro v' same t' find
      obtain rfl : v = v' := Option.some.inj (here.symm.trans same)
      rw [place, Pass.finds, if_pos expired] at find
      obtain rfl := Option.some.inj find
      exact (next' _ (List.mem_set inside _) _ _ rfl).1
    | spares fresh =>
      apply bad
      intro v' same t' find
      obtain rfl : v = v' := Option.some.inj (here.symm.trans same)
      rw [place, Pass.finds, if_neg (by simp [fresh])] at find
      cases find
    | @pops now t front rest queued =>
      have many : ¬ total condemning c.threads ≤ 1 := bad
      have moved := total_set condemning here (v.atPass (.counting now))
      have one : condemning v = 1 := condemning_of_found (by rw [place]; rfl)
      have none : condemning (v.atPass (.counting now)) = 0 := rfl
      have another : 0 < total condemning (c.threads.set i (v.atPass (.counting now))) := by omega
      obtain ⟨j, u, there, pos⟩ := exists_of_total_pos another
      obtain ⟨now', t', found⟩ := exists_found pos
      have mem := List.mem_of_getElem? there
      have old : u ∈ c.threads := by
        rcases List.mem_or_eq_of_mem_set mem with old | rfl
        · exact old
        · cases found
      obtain ⟨ids, head⟩ := front_eq_some.mp (h.tested.next u old now' t' found).1
      obtain ⟨ids', head'⟩ := front_eq_some.mp (next' u mem now' t' found).1
      have once : (c.shared.tasks.map Task.id).Nodup := h.queue.queued_nodup
      rw [queued, List.map_cons] at once head
      obtain ⟨own, -⟩ := List.cons.inj head
      apply (List.nodup_cons.mp once).1
      rw [own, show rest.map Task.id = t'.id :: ids' from head']
      exact List.mem_cons_self
    | _ => exact bad trivial

end Step

/-! ## Runs -/

theorem passAccount_visitors (clients : List Nat) : PassAccount (visitors clients) := by
  have outside : ∀ v ∈ (visitors clients).threads, v.pass = .outside := by
    intro v mem
    obtain ⟨t, -, rfl⟩ := List.mem_map.mp mem
    rfl
  refine ⟨?_, nofun, fun v mem now t found => ?_⟩
  · have same : atomically (visitors clients) = fresh clients := by
      have none : total uncounted (visitors clients).threads = 0 := by
        refine total_eq_zero.mpr fun v mem => ?_
        unfold uncounted
        rw [outside v mem]
        rfl
      have threads : (visitors clients).threads.map Visitor.thread = (fresh clients).threads := by
        unfold visitors
        rw [List.map_map]
        exact List.map_id _
      unfold atomically
      rw [none, threads]
      rfl
    rw [same]
    exact queueAccount_fresh clients
  · rw [outside v mem] at found
    cases found

/-- Whatever a pass has handed to the callback has been taken off the queue as expired,
or is what some pass is about to pop. -/
def ReportedExpired (c : Config Impl Visitor PassEvent) : Prop :=
  ∀ i t, (i, .reported t) ∈ c.log →
    (t.id, Fate.expired) ∈ (atomically c).log.filterMap takenTask ∨
      ∃ v ∈ c.threads, ∃ now, v.pass = .popping now t

section ReportedExpired

variable {c c' : Config Impl Visitor PassEvent} {mv : Move VisitorAct}

theorem reportedExpired_step (h : ReportedExpired c) (tested : PopsTested c) (calm : Returns mv)
    (change : VisitorChange c mv c') : ReportedExpired c' := by
  intro k t mem
  have later {log : List (Nat × PassEvent)} {threads : List Visitor} {s : Impl}
      (taken : (t.id, Fate.expired) ∈ (atomically c).log.filterMap takenTask) :
      (t.id, Fate.expired) ∈ (atomically ⟨s, threads, c.log ++ log⟩).log.filterMap takenTask := by
    unfold atomically
    rw [List.filterMap_append, List.filterMap_append]
    exact List.mem_append_left _ taken
  cases change with
  | @spurious i v here waits =>
    rcases h k t mem with taken | ⟨u, old, now, place⟩
    · exact .inl taken
    · obtain ⟨j, there⟩ := List.mem_iff_getElem?.mp old
      by_cases own : j = i
      · subst own
        obtain rfl := Option.some.inj (here.symm.trans there)
        have inside := (List.getElem?_eq_some_iff.mp here).1
        exact .inr ⟨v.wake, List.mem_set inside _, now, place⟩
      · have after := (List.getElem?_set_ne (Ne.symm own) (a := v.wake)).trans there
        exact .inr ⟨u, List.mem_of_getElem? after, now, place⟩
  | @locked i a cs v o ts here outside other fires woken =>
    have old : (k, .reported t) ∈ c.log := by
      rcases List.mem_append.mp mem with old | new
      · exact old
      · obtain ⟨_, there, eq⟩ := List.mem_map.mp new
        obtain ⟨_, -, rfl⟩ := List.mem_map.mp there
        cases eq
    rcases h k t old with taken | ⟨u, old, now, place⟩
    · exact .inl (later taken)
    · obtain ⟨j, there⟩ := List.mem_iff_getElem?.mp old
      have apart : j ≠ i := by
        rintro rfl
        obtain rfl := Option.some.inj (here.symm.trans there)
        rw [outside] at place
        cases place
      obtain ⟨u', after, same⟩ := unlockedManager.getElem?_run_other woken apart there
        (.ofThread o.self) (o.spawned.map .ofThread)
      have pass : u'.pass = u.pass := by
        rcases same with rfl | ⟨-, rfl⟩ <;> rfl
      exact .inr ⟨u', List.mem_of_getElem? after, now, pass.trans place⟩
  | @pass i a cs v o here idle makesCalls step =>
    have inside := (List.getElem?_eq_some_iff.mp here).1
    have before := tested.next v (List.mem_of_getElem? here)
    rcases List.mem_append.mp mem with old | new
    · rcases h k t old with taken | ⟨u, old, now, place⟩
      · exact .inl (later taken)
      · obtain ⟨j, there⟩ := List.mem_iff_getElem?.mp old
        by_cases own : j = i
        · subst own
          obtain rfl := Option.some.inj (here.symm.trans there)
          rw [place] at step before
          cases step with
          | @pops _ _ front rest queued =>
            obtain ⟨ids, head⟩ := front_eq_some.mp (before now t rfl).1
            rw [queued, List.map_cons] at head
            obtain ⟨same, -⟩ := List.cons.inj head
            left
            unfold atomically
            rw [List.filterMap_append, List.filterMap_append, ← same]
            exact List.mem_append_right _ List.mem_cons_self
        · have after := (List.getElem?_set_ne (Ne.symm own) (a := v.atPass o.self)).trans there
          exact .inr ⟨u, List.mem_of_getElem? after, now, place⟩
    · obtain ⟨e, there, eq⟩ := List.mem_map.mp new
      obtain ⟨-, rfl⟩ := Prod.mk.inj eq
      generalize v.pass = p at step
      cases step with
      | @reports now t' =>
        obtain rfl := PassEvent.reported.inj (List.mem_singleton.mp there)
        exact .inr ⟨v.atPass (.popping now t), List.mem_set inside _, now, rfl⟩
      | raised => cases calm
      | pops => cases List.mem_singleton.mp there
      | ends | spares => cases List.mem_singleton.mp there
      | _ => cases there

/-- What has been reported expired is not run. -/
theorem ReportedExpired.not_ran (h : ReportedExpired c) (account : PassAccount c) {i j : Nat}
    {t : Task} (reported : (i, .reported t) ∈ c.log) : (j, .locked (.ran t.id)) ∉ c.log := by
  intro ran
  have there : (j, Event.ran t.id) ∈ (atomically c).log :=
    List.mem_filterMap.mpr ⟨_, ran, rfl⟩
  have handed := account.queue.handed_of_ran there
  rcases h i t reported with expired | ⟨v, mem, now, place⟩
  · cases account.queue.ledger.fate_unique account.queue.once expired handed
  · obtain ⟨rest, ids⟩ := front_eq_some.mp (account.tested.next v mem now t (by rw [place]; rfl)).1
    have queued : t.id ∈ (atomically c).shared.tasks.map Task.id := by
      show t.id ∈ c.shared.tasks.map Task.id
      rw [ids]
      exact List.mem_cons_self
    exact account.queue.not_taken_of_queued queued _ handed

end ReportedExpired

/-- Each pop removes the task that was found expired all along a schedule exactly if no
step comes between a pass and its task; and as long as the callback does not throw
either, no task is both reported and run. -/
theorem pops_tested_iff (clients : List Nat) (mvs : List (Move VisitorAct)) :
    (unlockedManager.Throughout PopsTested (visitors clients) mvs ↔
      unlockedManager.EachStep Undisturbed (visitors clients) mvs) ∧
    ∀ c, unlockedManager.Run (fun c mv => Undisturbed c mv ∧ Returns mv) (visitors clients) c →
      ∀ i j t, (i, .reported t) ∈ c.log → (j, .locked (.ran t.id)) ∉ c.log := by
  have keeps {c c' : Config Impl Visitor PassEvent} {mv : Move VisitorAct} (h : PassAccount c)
      (ok : Undisturbed c mv) (step : unlockedManager.Step c mv c') : PassAccount c' :=
    ⟨atomically_step h.queue (visitorChange_of_step step),
      popsTested_step h ok (visitorChange_of_step step)⟩
  constructor
  · exact Program.throughout_iff PassAccount.tested keeps
      (fun h bad step => pop_goes_wrong h (atomically_step h.queue (visitorChange_of_step step)) bad
        (visitorChange_of_step step)) (passAccount_visitors clients) mvs
  · intro c run i j t
    let inv (c : Config Impl Visitor PassEvent) := PassAccount c ∧ ReportedExpired c
    have keepsBoth {c c' : Config Impl Visitor PassEvent} {mv : Move VisitorAct} (h : inv c)
        (ok : Undisturbed c mv ∧ Returns mv) (step : unlockedManager.Step c mv c') : inv c' :=
      ⟨keeps h.1 ok.1 step, reportedExpired_step h.2 h.1.tested ok.2 (visitorChange_of_step step)⟩
    have init : inv (visitors clients) := ⟨passAccount_visitors clients, nofun⟩
    have both : inv c := run.invariant init keepsBoth
    exact both.2.not_ran both.1

def lockMove : Move Act → Move VisitorAct
  | .run i a choices => .run i (.locked a) choices
  | .spurious i => .spurious i

/-- A task that expires at 105 and one that does not expire. -/
def addBoth : List (Move Act) :=
  [.run 0 (.call (.add ⟨10, 0, 5⟩ ⟨fun _ => 100, none⟩ 100)) [],
    .run 0 (.call (.add ⟨11, 0, 0⟩ ⟨fun _ => 100, none⟩ 100)) []]

/-- A started manager with one worker gets both tasks. -/
def addTwo : List (Move VisitorAct) := (addRunExpire.take 12 ++ addBoth).map lockMove

/-- The client's pass up to its first pop, at 106. -/
def passOnce : List (Move VisitorAct) :=
  [.run 0 (.pass .enter) [], .run 0 (.pass .test) [], .run 0 (.pass .read) [],
    .run 0 (.pass (.examine 106)) [], .run 0 (.pass (.callBack false)) [], .run 0 (.pass .pop) []]

/-- The worker takes and begins the task at the front, at 104. -/
def takeAndRun : List (Move VisitorAct) :=
  [.run 1 (.locked (.worker (.iterate ⟨fun _ => 104, none⟩))) [],
    .run 1 (.locked (.worker .run)) []]

theorem pops_tested_iff_passOnce :
    unlockedManager.Throughout PopsTested (visitors [1]) (addTwo ++ passOnce ++ takeAndRun) ∧
      ∃ (c : Config Impl Visitor PassEvent) (t : Task),
        (0, .reported t) ∈ c.log ∧ (1, .locked (.ran 1)) ∈ c.log ∧
        (1, .locked (.ran t.id)) ∉ c.log := by
  obtain ⟨c, run, reported, ran⟩ := unlockedManager.exists_run
    (fun c mv => Undisturbed c mv ∧ Returns mv) (visitors [1])
    (fun c => (0, .reported (Task.make 0 10 5 100)) ∈ c.log ∧ (1, .locked (.ran 1)) ∈ c.log)
    (addTwo ++ passOnce ++ takeAndRun) (by decide)
  have apart := (pops_tested_iff [1] []).2 c run 0 1 _ reported
  exact ⟨(pops_tested_iff [1] _).1.mpr (by decide), c, _, reported, ran, apart⟩

/-- The worker takes the expiring task after the pass has read it; the pass reports that
task and drops the other one. -/
theorem pass_drops_untested : ∃ c, unlockedManager.Reach (visitors [1]) c ∧ ¬ PopsTested c ∧
    (0, .reported (Task.make 0 10 5 100)) ∈ c.log ∧ (1, .locked (.ran 0)) ∈ c.log ∧
    (0, .popped 106 (Task.make 0 10 5 100) 1) ∈ c.log ∧ c.shared.tasks = [] := by
  obtain ⟨c, reach, reported, ran, popped, empty⟩ := unlockedManager.exists_reach (visitors [1])
    (fun c => (0, .reported (Task.make 0 10 5 100)) ∈ c.log ∧ (1, .locked (.ran 0)) ∈ c.log ∧
      (0, .popped 106 (Task.make 0 10 5 100) 1) ∈ c.log ∧ c.shared.tasks = [])
    (addTwo ++ passOnce.take 3 ++ takeAndRun ++ passOnce.drop 3) (by decide)
  refine ⟨c, reach, fun h => ?_, reported, ran, popped, empty⟩
  cases (h.past _ popped _ _ _ rfl).1

end Threads.Manager
