import Threads.Manager.History

/-!
# No task is lost, duplicated or reordered

The queue and its history are a ledger: a step advances it. The invariant of a
run carries the balance, the tasks in the workers' hands and the expired count.
-/

namespace Threads.Manager

open Concurrency

def Thread.held (t : Thread) : List Nat := t.worker.hands.held

def Thread.running (t : Thread) : List Nat := t.worker.hands.running

/-- What the log of a run says about its queue. -/
structure QueueAccount (c : Config Impl Thread Event) : Prop where
  order : c.log.filterMap pushedTask =
    (c.log.filterMap takenTask).map Prod.fst ++ c.shared.tasks.map Task.id
  fresh : c.log.filterMap pushedTask = List.range c.shared.taskAllocs
  waiting : ∀ t ∈ c.shared.tasks, t.state = .waiting
  held : ∀ i, c.log.filterMap (handedTo i) =
    c.log.filterMap (ranBy i) ++ Program.look Thread.held [] c.threads i
  running : ∀ i, c.log.filterMap (ranBy i) =
    c.log.filterMap (finishedBy i) ++ Program.look Thread.running [] c.threads i
  ready : ∀ t ∈ c.threads, t.worker.ready
  counted : (c.log.filterMap expiredTask).length =
    (c.log.filterMap countRead).sum + c.shared.expiredCount
  adds : ∀ i, AddHistory (c.log.filterMap (addEvent i))

/-! ## One step -/

theorem hands_wake (t : Thread) : t.wake.worker.hands = t.worker.hands := by
  obtain ⟨_, worker, _, _⟩ := t
  cases worker <;> rfl

theorem ready_wake {t : Thread} (h : t.worker.ready) : t.wake.worker.ready := by
  obtain ⟨_, worker, _, _⟩ := t
  cases worker <;> exact h

/-- What thread `j` did is not in the history of another thread. -/
theorem filterMap_other {β : Type} {p : Nat → Entry → Option β} {i j : Nat}
    (own : ∀ e, i ≠ j → p i (j, e) = none) (other : i ≠ j) (es : List Event) :
    (es.map (Prod.mk j)).filterMap (p i) = [] := by
  rw [List.filterMap_eq_nil_iff]
  intro e he
  obtain ⟨e, -, rfl⟩ := List.mem_map.mp he
  exact own e other

theorem handedTo_other {i j : Nat} (e : Event) (other : i ≠ j) : handedTo i (j, e) = none := by
  cases e <;> simp [handedTo, Ne.symm other]

theorem ranBy_other {i j : Nat} (e : Event) (other : i ≠ j) : ranBy i (j, e) = none := by
  cases e <;> simp [ranBy, Ne.symm other]

theorem finishedBy_other {i j : Nat} (e : Event) (other : i ≠ j) : finishedBy i (j, e) = none := by
  cases e <;> simp [finishedBy, Ne.symm other]

theorem addEvent_other {i j : Nat} (e : Event) (other : i ≠ j) : addEvent i (j, e) = none := by
  have apart : ¬ j = i := fun same => other same.symm
  unfold addEvent
  split <;> simp_all

/-- A block that accounts for what it does keeps the account of the run. -/
theorem QueueAccount.next {c : Config Impl Thread Event} (h : QueueAccount c) {j : Nat}
    {t u : Thread} {ts : List Thread} (spawned : List Thread) {s : Impl} {es : List Event}
    (woken : threadManager.Woken c.threads ts) (here : c.threads[j]? = some t)
    (block : Accounts j c.shared t.worker.hands s u.worker.hands (es.map (Prod.mk j)))
    (ready : u.worker.ready) (started : ∀ v ∈ spawned, v.worker = .entry) :
    QueueAccount ⟨s, ts.set j u ++ spawned, c.log ++ es.map (Prod.mk j)⟩ where
  order := by
    simp only [List.filterMap_append, List.map_append, List.append_assoc, block.queue]
    rw [h.order, List.append_assoc]
  fresh := by rw [List.filterMap_append, h.fresh, block.fresh]
  waiting := block.waiting h.waiting
  held i := by
    have seen := threadManager.look_run (f := Thread.held) (d := [])
      (fun t _ => congrArg Hands.held (hands_wake t)) woken here u spawned
      (fun v hv => by simp [Thread.held, started v hv, Worker.hands]) i
    rw [seen]
    simp only [List.filterMap_append, h.held i]
    split
    · rename_i own
      subst own
      rw [Program.look_of_getElem? _ _ here, List.append_assoc, Thread.held, block.held,
        ← List.append_assoc]
      rfl
    · rename_i other
      rw [filterMap_other handedTo_other other, filterMap_other ranBy_other other]
      simp
  running i := by
    have seen := threadManager.look_run (f := Thread.running) (d := [])
      (fun t _ => congrArg Hands.running (hands_wake t)) woken here u spawned
      (fun v hv => by simp [Thread.running, started v hv, Worker.hands]) i
    rw [seen]
    simp only [List.filterMap_append, h.running i]
    split
    · rename_i own
      subst own
      rw [Program.look_of_getElem? _ _ here, List.append_assoc, Thread.running, block.running,
        ← List.append_assoc]
      rfl
    · rename_i other
      rw [filterMap_other ranBy_other other, filterMap_other finishedBy_other other]
      simp
  ready := threadManager.forall_run (fun t => t.worker.ready)
    (fun _ _ => ready_wake) woken h.ready u
    ready spawned (fun v hv => by simp [started v hv, Worker.ready]) j
  counted := by
    have before := h.counted
    have change := block.counted
    simp only [List.filterMap_append, List.length_append, List.sum_append]
    omega
  adds i := by
    rw [List.filterMap_append]
    by_cases own : i = j
    · exact .snoc (h.adds i) (own ▸ block.adds)
    · rw [filterMap_other addEvent_other own, List.append_nil]
      exact h.adds i

theorem ready_of_makesCalls {w : Worker} (h : w.makesCalls = true) : w.ready := by
  cases w <;> simp_all [Worker.makesCalls, Worker.ready]

theorem queueAccount_step {c c' : Config Impl Thread Event} {mv : Move Act} (h : QueueAccount c)
    (change : Change c mv c') : QueueAccount c' := by
  cases change with
  | @spurious i t here waits =>
    have still : Accounts i c.shared t.worker.hands c.shared t.wake.worker.hands
        ([].map (Prod.mk i)) := by
      rw [hands_wake]
      exact accounts_beside rfl rfl rfl (by simp)
    have next := h.next [] (Program.Woken.refl _ _) here still
      (ready_wake (h.ready t (List.mem_of_getElem? here))) (by simp)
    simpa using next
  | @worker i a cs t w o ts alive here idle place step delivered =>
    subst place
    have next := h.next [] (threadManager.deliver_woken delivered) here
      (u := t.withWorker idle o.self)
      (step.accounts (h.ready t (List.mem_of_getElem? here)) i) (step.ready h.waiting) (by simp)
    simpa using next
  | @call i a cs t d o ts alive here makesCalls place step delivered =>
    refine h.next o.spawned (threadManager.deliver_woken delivered) here
      (step.accounts i t.worker.hands)
      (ready_of_makesCalls makesCalls) ?_
    rcases step.spawned with none | ⟨ref, one⟩ <;> simp_all

theorem queueAccount_fresh (clients : List Nat) : QueueAccount (fresh clients) where
  order := rfl
  fresh := rfl
  waiting := by simp [Manager.fresh]
  held i := by
    cases client : clients[i]? <;>
      simp [Manager.fresh, Program.look, client, Thread.held, Worker.hands]
  running i := by
    cases client : clients[i]? <;>
      simp [Manager.fresh, Program.look, client, Thread.running, Worker.hands]
  ready t ht := by
    obtain ⟨_, -, rfl⟩ := List.mem_map.mp ht
    trivial
  counted := rfl
  adds _ := .nil

theorem queueAccount_of_reach {clients : List Nat} {c : Config Impl Thread Event}
    (h : threadManager.Reach (fresh clients) c) : QueueAccount c :=
  h.invariant (queueAccount_fresh clients) fun h _ step => queueAccount_step h (change_of_step step)

/-! ## The queue of a run is a ledger -/

namespace QueueAccount

variable {c c' : Config Impl Thread Event}

def ledger (h : QueueAccount c) : Ledger Nat Fate where
  pushed := c.log.filterMap pushedTask
  taken := c.log.filterMap takenTask
  queue := c.shared.tasks.map Task.id
  balanced := h.order

theorem once (h : QueueAccount c) : h.ledger.pushed.Nodup := by
  have fresh : h.ledger.pushed = _ := h.fresh
  rw [fresh]
  exact List.nodup_range

/-- What a step takes off the head and pushes at the tail advances the ledger. -/
theorem advances (h : QueueAccount c) (h' : QueueAccount c') {es : List Entry}
    (log : c'.log = c.log ++ es) :
    h.ledger.Advances h'.ledger (es.filterMap takenTask) (es.filterMap pushedTask) where
  pushed := by simp [ledger, log]
  taken := by simp [ledger, log]
  queue := by
    have before := h.order
    have after := h'.order
    rw [log, List.filterMap_append, List.filterMap_append, before, List.map_append,
      List.append_assoc, List.append_assoc] at after
    exact (List.append_cancel_left after).symm

/-- A task in the history of what worker `i` was handed was taken off the queue for it. -/
theorem mem_handedTo {log : List Entry} {i t : Nat} :
    t ∈ log.filterMap (handedTo i) ↔ (t, Fate.handed i) ∈ log.filterMap takenTask := by
  simp only [List.mem_filterMap]
  constructor
  · rintro ⟨⟨j, e⟩, mem, eq⟩
    refine ⟨(j, e), mem, ?_⟩
    cases e <;> simp_all [handedTo, takenTask]
  · rintro ⟨⟨j, e⟩, mem, eq⟩
    refine ⟨(j, e), mem, ?_⟩
    cases e <;> simp_all [handedTo, takenTask]

theorem mem_ranBy {log : List Entry} {i t : Nat} :
    t ∈ log.filterMap (ranBy i) ↔ (i, Event.ran t) ∈ log := by
  simp only [List.mem_filterMap]
  constructor
  · rintro ⟨⟨j, e⟩, mem, eq⟩
    cases e <;> simp_all [ranBy]
  · intro mem
    exact ⟨_, mem, by simp [ranBy]⟩

theorem handed_of_ran (h : QueueAccount c) {i t : Nat} (ran : (i, Event.ran t) ∈ c.log) :
    (t, Fate.handed i) ∈ h.ledger.taken := by
  apply mem_handedTo.mp
  rw [h.held i]
  exact List.mem_append_left _ (mem_ranBy.mpr ran)

/-- A finer projection sees a sublist of what a coarser one sees. -/
theorem filterMap_sublist {α β : Type} {p q : α → Option β} (h : ∀ x b, p x = some b → q x = some b)
    (l : List α) : (l.filterMap p).Sublist (l.filterMap q) := by
  induction l with
  | nil => exact .slnil
  | cons x l ih =>
    cases hp : p x with
    | some b => simpa [hp, h x b hp] using ih
    | none =>
      cases hq : q x with
      | some b => simpa [hp, hq] using ih.cons b
      | none => simpa [hp, hq] using ih

/-- Tasks picked out of what was taken were each taken once. -/
theorem nodup_of_taken (h : QueueAccount c) {p : Entry → Option Nat}
    (taken : ∀ e t, p e = some t → (takenTask e).map Prod.fst = some t) :
    (c.log.filterMap p).Nodup := by
  have all := h.ledger.taken_nodup h.once
  simp only [ledger, List.map_filterMap] at all
  exact all.sublist (filterMap_sublist taken c.log)

theorem handed_nodup (h : QueueAccount c) (i : Nat) : (c.log.filterMap (handedTo i)).Nodup := by
  apply h.nodup_of_taken
  rintro ⟨j, e⟩ t eq
  cases e <;> simp_all [handedTo, takenTask]

theorem expired_nodup (h : QueueAccount c) : (c.log.filterMap expiredTask).Nodup := by
  apply h.nodup_of_taken
  rintro ⟨j, e⟩ t eq
  cases e <;> simp_all [expiredTask, takenTask]

/-- The next block of a worker with a task in hand runs that task. -/
theorem runs_next (h : QueueAccount c) {i : Nat} {t : Thread} {task : Task}
    (here : c.threads[i]? = some t) (holds : t.worker = .holding task) {a : Act} {cs : List Nat}
    (change : Change c (.run i a cs) c') : c'.log = c.log ++ [(i, .ran task.id)] := by
  have ready := h.ready t (List.mem_of_getElem? here)
  cases change with
  | @worker _ _ _ u w o ts alive here' idle place step delivered =>
    obtain rfl : t = u := by simpa [here] using here'
    rw [holds] at place ready
    subst place
    cases step with
    | ran => rfl
    | skipped other => exact absurd ready other
  | @call _ _ _ u d o ts alive here' makesCalls place step delivered =>
    obtain rfl : t = u := by simpa [here] using here'
    simp [holds, Worker.makesCalls] at makesCalls

end QueueAccount

/-! ## The expire callback -/

/-- A worker act in which no expire callback throws. -/
def WorkerAct.quiet : WorkerAct → Prop
  | .iterate env | .resume env => env.raises = none
  | _ => True

/-- A call in which no expire callback throws, other than `RemoveExpiredTasks`. -/
def CallAct.quiet : CallAct → Prop
  | .add _ env _ => env.raises = none
  | .removeExpiredTasks _ => False
  | _ => True

instance (a : WorkerAct) : Decidable a.quiet := by
  unfold WorkerAct.quiet
  split <;> infer_instance

instance (a : CallAct) : Decidable a.quiet := by
  unfold CallAct.quiet
  split <;> infer_instance

/-- No expire callback throws, and no client calls `RemoveExpiredTasks`. -/
def Orderly (_ : Config Impl Thread Event) : Move Act → Prop
  | .run _ (.worker a) _ => a.quiet
  | .run _ (.call a) _ => a.quiet
  | .spurious _ => True

instance (c : Config Impl Thread Event) : DecidablePred (Orderly c)
  | .spurious _ => isTrue trivial
  | .run _ (.worker a) _ => inferInstanceAs (Decidable a.quiet)
  | .run _ (.call a) _ => inferInstanceAs (Decidable a.quiet)

/-- The expiry pass a block of a worker makes, if it makes one. -/
def WorkerAct.pass (s : Impl) : WorkerAct → Option Surroundings
  | .iterate env | .resume env => if s.isActive then some env else none
  | _ => none

/-- The expiry pass a block of a call makes, if it makes one. -/
def CallAct.pass (s : Impl) : CallAct → Option Surroundings
  | .add _ env _ => if s.state = .started then some env else none
  | .removeExpiredTasks env => some env
  | _ => none

theorem WorkerAct.quiet.calm {s : Impl} {a : WorkerAct} (quiet : a.quiet) :
    ∀ env ∈ a.pass s, (s.expiry env).raised = false := by
  intro env pass
  cases a with
  | iterate | resume =>
    simp only [WorkerAct.pass, Option.mem_def, Option.ite_none_right_eq_some,
      Option.some.injEq] at pass
    exact expirePass_not_raised (pass.2 ▸ quiet) _ _ _
  | _ => cases pass

theorem CallAct.quiet.calm {s : Impl} {a : CallAct} (quiet : a.quiet) :
    ∀ env ∈ a.pass s, (s.expiry env).raised = false := by
  intro env pass
  cases a with
  | add =>
    simp only [CallAct.pass, Option.mem_def, Option.ite_none_right_eq_some,
      Option.some.injEq] at pass
    exact expirePass_not_raised (pass.2 ▸ quiet) _ _ _
  | removeExpiredTasks => exact quiet.elim
  | _ => cases pass

/-- The callback has been called for exactly the tasks that expired while it was set. -/
def CallsBack (es : List Entry) : Prop :=
  es.filterMap calledBackTask = es.filterMap expiredCalled

theorem CallsBack.append {es es' : List Entry} (h : CallsBack es) (h' : CallsBack es') :
    CallsBack (es ++ es') := by
  unfold CallsBack at *
  rw [List.filterMap_append, List.filterMap_append, h, h']

theorem callsBack_workBlock (s : Impl) {env : Surroundings} (calm : (s.expiry env).raised = false)
    (j : Nat) : CallsBack ((workBlock s env).events.map (Prod.mk j)) := by
  have pass := expiryEntries_called s env j calm
  unfold workBlock
  dsimp only
  split
  · exact pass
  · split
    · exact pass
    · rw [List.map_append]
      exact CallsBack.append pass rfl

theorem WorkerStep.callsBack {s : Impl} {ref : ThreadRef} {w : Worker} {a : WorkerAct}
    {o : Effect Worker} (h : WorkerStep s ref w a o)
    (calm : ∀ env ∈ a.pass s, (s.expiry env).raised = false) (j : Nat) :
    CallsBack (o.events.map (Prod.mk j)) := by
  cases h with
  | works active => exact callsBack_workBlock _ (calm _ (if_pos active)) j
  | @wakesAndWorks env active =>
    exact callsBack_workBlock { s with idleCount := decrement s.idleCount }
      (calm _ (if_pos active)) j
  | _ => rfl

theorem CallStep.callsBack {s : Impl} {id : Nat} {d : Call} {a : CallAct} {o : Effect Call}
    (h : CallStep s id d a o) (calm : ∀ env ∈ a.pass s, (s.expiry env).raised = false) (j : Nat) :
    CallsBack (o.events.map (Prod.mk j)) := by
  have afterExpiry {env : Surroundings} (calm : (s.expiry env).raised = false) {es : List Event}
      (rest : CallsBack (es.map (Prod.mk j))) :
      CallsBack ((s.expiryEvents env ++ es).map (Prod.mk j)) := by
    rw [List.map_append]
    exact CallsBack.append (expiryEntries_called s env j calm) rest
  cases h with
  | @started workers => cases workers <;> rfl
  | @startAgain workers | @resumeStart workers =>
    unfold startWaitBlock
    split <;> cases workers <;> rfl
  | @startThread object objects created => cases created <;> rfl
  | @removed caller => cases caller <;> rfl
  | addParks opened => exact expiryEntries_called s _ j (calm _ (if_pos opened))
  | addRaised opened | addTooMany opened | adds opened =>
    exact afterExpiry (calm _ (if_pos opened)) rfl
  | remove =>
    unfold removeBlock
    split <;> rfl
  | removeNextPending =>
    unfold removeNextPendingBlock
    split
    · rfl
    · split <;> rfl
  | removeExpiredTasks => exact afterExpiry (calm _ rfl) (by split <;> rfl)
  | _ => rfl

theorem callsBack_step {c c' : Config Impl Thread Event} {mv : Move Act} (h : CallsBack c.log)
    (ok : Orderly c mv) (change : Change c mv c') : CallsBack c'.log := by
  cases change with
  | spurious => exact h
  | worker _ _ _ _ step => exact h.append (step.callsBack (WorkerAct.quiet.calm ok) _)
  | call _ _ _ _ step => exact h.append (step.callsBack (CallAct.quiet.calm ok) _)

/-- What a client of the manager can rely on. Tasks are named by the order of their
allocation; `takenTask` gives a task that left the queue with its fate. -/
structure QueueHistory (c : Config Impl Thread Event) : Prop where
  order : c.log.filterMap pushedTask =
    (c.log.filterMap takenTask).map Prod.fst ++ c.shared.tasks.map Task.id
  pushedOnce : (c.log.filterMap pushedTask).Nodup
  takenOnce : ((c.log.filterMap takenTask).map Prod.fst).Nodup
  oneFate : ∀ t f g, (t, f) ∈ c.log.filterMap takenTask → (t, g) ∈ c.log.filterMap takenTask → f = g
  handed : ∀ i, c.log.filterMap (handedTo i) =
    c.log.filterMap (ranBy i) ++ Program.look Thread.held [] c.threads i
  runsNext : ∀ i t task, c.threads[i]? = some t → t.worker = .holding task →
    ∀ a cs c', threadManager.Step c (.run i a cs) c' → c'.log = c.log ++ [(i, .ran task.id)]
  runOnce : ∀ i, (c.log.filterMap (ranBy i)).Nodup
  runByOne : ∀ i j t, (i, Event.ran t) ∈ c.log → (j, Event.ran t) ∈ c.log → i = j
  expiredOnce : (c.log.filterMap expiredTask).Nodup
  called : c.log.filterMap calledBackTask = c.log.filterMap expiredCalled
  adds : ∀ i, AddHistory (c.log.filterMap (addEvent i))
  counted : (c.log.filterMap countRead).sum + c.shared.expiredCount =
    (c.log.filterMap expiredTask).length

theorem queue_history_exact (clients : List Nat) (c : Config Impl Thread Event)
    (run : threadManager.Run Orderly (fresh clients) c) : QueueHistory c := by
  have h := queueAccount_of_reach run.reach
  have called : CallsBack c.log := by
    refine run.invariant ?_ fun h ok step => callsBack_step h ok (change_of_step step)
    rfl
  exact {
    order := h.order
    pushedOnce := h.once
    takenOnce := h.ledger.taken_nodup h.once
    oneFate := fun t f g hf hg => h.ledger.fate_unique h.once hf hg
    handed := h.held
    runsNext := fun i t task here holds a cs c' step => h.runs_next here holds (change_of_step step)
    runOnce := fun i => (List.nodup_append.mp (h.held i ▸ h.handed_nodup i)).1
    runByOne := fun i j t hi hj => Fate.handed.inj
      (h.ledger.fate_unique h.once (h.handed_of_ran hi) (h.handed_of_ran hj))
    expiredOnce := h.expired_nodup
    called := called
    adds := h.adds
    counted := h.counted.symm }

/-- A worker takes the first of two tasks; the second expires while a callback is set. -/
def addRunExpire : List (Move Act) :=
  [.run 0 (.call (.setThreadFactory true)) [], .run 0 (.call (.setExpireCallback true)) [],
    .run 0 (.call (.start none)) [], .run 0 (.call .lockStart) [],
    .run 0 (.call (.addWorker 1)) [], .run 0 (.call .newThreads) [], .run 0 (.call .raise) [],
    .run 0 (.call (.startThread (some 7))) [], .run 1 (.worker .enter) [],
    .run 1 (.worker .announce) [],
    .run 0 (.call .register) [], .run 0 (.call .awaitAdded) [],
    .run 0 (.call (.add ⟨10, 0, 0⟩ ⟨fun _ => 0, none⟩ 0)) [],
    .run 0 (.call (.add ⟨11, 0, 5⟩ ⟨fun _ => 0, none⟩ 100)) [],
    .run 1 (.worker (.iterate ⟨fun _ => 100, none⟩)) [], .run 1 (.worker .run) [],
    .run 1 (.worker (.finish true)) [],
    .run 1 (.worker (.iterate ⟨fun _ => 200, none⟩)) [],
    .run 0 (.call .expiredTaskCount) []]

theorem queue_history_exact_addRunExpire : ∃ c,
    threadManager.Run Orderly (fresh [1]) c ∧ (0, Event.pushed 1) ∈ c.log ∧
      (1, Event.ran 0) ∈ c.log ∧ (1, Event.expired 1 true) ∈ c.log ∧ QueueHistory c := by
  obtain ⟨c, run, pushed, ran, expired⟩ := threadManager.exists_run Orderly (fresh [1])
    (fun c => (0, Event.pushed 1) ∈ c.log ∧ (1, Event.ran 0) ∈ c.log ∧
      (1, Event.expired 1 true) ∈ c.log) addRunExpire (by decide)
  exact ⟨c, run, pushed, ran, expired, queue_history_exact [1] c run⟩

end Threads.Manager
