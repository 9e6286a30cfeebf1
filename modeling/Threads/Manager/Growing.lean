import Threads.Manager.Stopping

/-!
# Waiting for new workers

`AddWorker` raises `worker_max_count_`, starts its threads and waits until
`worker_count_` has reached the limit. The worker whose entry block makes the two
equal notifies one waiting caller.
-/

namespace Threads.Manager

open Concurrency

/-- The callers parked in `worker_monitor_` with no notification delivered to them. -/
def resizers (ts : List Thread) : Nat := total (threadManager.parkedIn .workerMonitor) ts

/-- One for a worker that has still to notify `worker_monitor_` on entry. -/
def announcing : Worker → Nat
  | .announce => 1
  | _ => 0

instance : Steady announcing := ⟨fun w => by cases w <;> rfl⟩

def WorkerAct.announces : WorkerAct → Bool
  | .announce => true
  | _ => false

/-- All blocks but those of `RemoveWorker`, `Stop` and `Join` and a failed creation. -/
def CallAct.grows : CallAct → Bool
  | .removeWorker _ | .lower | .awaitRemoved => false
  | .stop _ | .lockStop | .readCount | .finishStop => false
  | .startThread none => false
  | _ => true

/-- The pool only grows, and every thread that is created runs. -/
def Grows : Move Act → Prop
  | .run _ (.call a) _ => a.grows = true
  | _ => True

instance : DecidablePred Grows
  | .spurious _ | .run _ (.worker _) _ => isTrue trivial
  | .run _ (.call a) _ => inferInstanceAs (Decidable (a.grows = true))

/-- Every worker has entered and given its notification, the pool is complete, and an
`AddWorker` caller is still parked with no notification delivered to it. -/
structure StuckResizer (c : Config Impl Thread Event) : Prop where
  entered : total (onWorker entering) c.threads = 0
  announced : total (onWorker announcing) c.threads = 0
  complete : c.shared.workerCount = c.shared.workerMaxCount
  parked : ∃ t ∈ c.threads, t.call = .addedParked

instance (c : Config Impl Thread Event) : Decidable (StuckResizer c) :=
  decidable_of_iff (total (onWorker entering) c.threads = 0 ∧
    total (onWorker announcing) c.threads = 0 ∧ c.shared.workerCount = c.shared.workerMaxCount ∧
    ∃ t ∈ c.threads, t.call = .addedParked)
    ⟨fun ⟨a, b, d, e⟩ => ⟨a, b, d, e⟩, fun ⟨a, b, d, e⟩ => ⟨a, b, d, e⟩⟩

/-- When the last worker of a complete pool gives its notification, at most one caller
is parked. -/
def WakesLast (c : Config Impl Thread Event) : Move Act → Prop
  | .run _ (.worker a) _ => a.announces = true →
    c.shared.workerCount = c.shared.workerMaxCount →
    total (onWorker announcing) c.threads = 1 → resizers c.threads ≤ 1
  | _ => True

instance (c : Config Impl Thread Event) : DecidablePred (WakesLast c)
  | .spurious _ | .run _ (.call _) _ => isTrue trivial
  | .run _ (.worker a) _ => inferInstanceAs (Decidable (a.announces = true → _))

/-- Outside the entry and the exit of `Worker::Run`. -/
def Worker.settled : Worker → Bool
  | .entry | .announce | .leaving _ | .escaped => false
  | _ => true

/-- A complete pool that no call is changing. -/
structure AtRest (c : Config Impl Thread Event) : Prop where
  complete : c.shared.workerCount = c.shared.workerMaxCount
  workers : ∀ t ∈ c.threads, t.worker.settled = true
  idle : ∀ t ∈ c.threads, t.call = .none

instance (c : Config Impl Thread Event) : Decidable (AtRest c) :=
  decidable_of_iff (c.shared.workerCount = c.shared.workerMaxCount ∧
    (∀ t ∈ c.threads, t.worker.settled = true) ∧ ∀ t ∈ c.threads, t.call = .none)
    ⟨fun ⟨a, b, d⟩ => ⟨a, b, d⟩, fun ⟨a, b, d⟩ => ⟨a, b, d⟩⟩

theorem waits_workerMonitor_iff {t : Thread} : t.waitsOn = some .workerMonitor ↔
    t.call = .addedParked ∨ ∃ caller, t.call = .removedParked caller := by
  rcases t.calm with working | idle
  · rw [waitsOn_of_working working]
    cases t.call <;> simp [Call.waitsOn]
  · rw [waitsOn_of_idle idle, idle]
    cases t.worker <;> simp [Worker.waitsOn]

/-! ## One step -/

/-- Everything there is room for has entered or is on its way, and a complete pool owes
a notification to whoever is parked. -/
structure GrowthAccount (c : Config Impl Thread Event) : Prop where
  exact : c.shared.workerCount + arriving c.threads = c.shared.workerMaxCount
  stays : total (onWorker leaving) c.threads = 0
  grows : total (onCall lowered) c.threads = 0
  owed : 0 < resizers c.threads → c.shared.workerCount = c.shared.workerMaxCount →
    0 < total (onWorker announcing) c.threads

section Worker

variable {s : Impl} {ref : ThreadRef} {w : Worker} {a : WorkerAct} {o : Effect Worker}

/-- What a block of a worker that stays in the pool does to its growth. -/
inductive WorkerGrowth (s : Impl) (w : Worker) (a : WorkerAct) (o : Effect Worker) : Prop
  | enters (before : entering w = 1 ∧ announcing w = 0)
      (after : announcing o.self = if s.workerCount + 1 = s.workerMaxCount then 1 else 0)
      (count : o.shared.workerCount = s.workerCount + 1) (signals : o.signals = [])
  | announces (before : entering w = 0 ∧ announcing w = 1) (act : a.announces = true)
      (after : announcing o.self = 0) (count : o.shared.workerCount = s.workerCount)
      (signals : o.signals = [.notify .workerMonitor])
  | works (before : entering w = 0 ∧ announcing w = 0) (after : announcing o.self = 0)
      (other : a.announces = false) (count : o.shared.workerCount = s.workerCount)
      (signals : ∀ n, Program.afterSignals .workerMonitor o.signals n = n)

theorem workBlock_growth (s : Impl) (env : Surroundings) :
    announcing (workBlock s env).self = 0 ∧ leaving (workBlock s env).self = 0 ∧
      ∀ n, Program.afterSignals .workerMonitor (workBlock s env).signals n = n := by
  have room (s : Impl) (n : Nat) : Program.afterSignals .workerMonitor (roomSignals s) n = n := by
    unfold roomSignals
    split <;> rfl
  unfold workBlock
  dsimp only
  split
  · exact ⟨rfl, rfl, fun _ => rfl⟩
  · split
    · exact ⟨rfl, rfl, room _⟩
    · exact ⟨rfl, rfl, room _⟩

theorem WorkerStep.growth (h : WorkerStep s ref w a o)
    (room : Manager.entering w = 1 → s.workerCount < s.workerMaxCount)
    (within : s.workerCount ≤ s.workerMaxCount) (stays : leaving w = 0) :
    WorkerGrowth s w a o ∧ leaving o.self = 0 := by
  have active (inactive : s.isActive = false) : False := by
    rw [Impl.not_isActive_iff] at inactive
    omega
  cases h with
  | enters =>
    refine ⟨.enters ⟨rfl, rfl⟩ ?_ rfl rfl, ?_⟩
    · dsimp only
      split <;> rfl
    · dsimp only
      split <;> rfl
  | refused noRoom =>
    have some := room rfl
    omega
  | announced => exact ⟨.announces ⟨rfl, rfl⟩ rfl rfl rfl rfl, rfl⟩
  | works | wakesAndWorks =>
    obtain ⟨silent, inside, signals⟩ := workBlock_growth _ _
    exact ⟨.works ⟨rfl, rfl⟩ silent rfl (workBlock_workerCount _ _) signals, inside⟩
  | leaves inactive | wakesAndLeaves inactive => exact (active inactive).elim
  | exited => cases stays
  | _ => exact ⟨.works ⟨rfl, rfl⟩ rfl rfl rfl fun _ => rfl, rfl⟩

end Worker

section Call

variable {s : Impl} {id : Nat} {d : Call} {a : CallAct} {o : Effect Call}

theorem afterSignals_startWait (s : Impl) (workers : Option Nat) :
    (startWaitBlock s workers).signals = [] ∧
      (startWaitBlock s workers).self.waitsOn ≠ some .workerMonitor := by
  unfold startWaitBlock
  split
  · exact ⟨rfl, nofun⟩
  · cases workers <;> exact ⟨rfl, nofun⟩

/-- No call notifies `worker_monitor_`, and none moves while it is parked there. -/
theorem CallStep.silent (h : CallStep s id d a o) :
    d.waitsOn ≠ some .workerMonitor ∧
      ∀ n, Program.afterSignals .workerMonitor o.signals n = n := by
  have push (s : Impl) (n : Nat) : Program.afterSignals .workerMonitor (pushSignals s) n = n := by
    unfold pushSignals
    split <;> rfl
  cases h with
  | startAgain | resumeStart =>
    refine ⟨(fun waits => by cases waits), fun n => ?_⟩
    rw [(afterSignals_startWait s _).1]
    rfl
  | @startThread object objects created =>
    cases created <;> exact ⟨(fun waits => by cases waits), fun _ => rfl⟩
  | @lowers value =>
    refine ⟨(fun waits => by cases waits), fun n => ?_⟩
    show Program.afterSignals .workerMonitor (lowerSignals s value) n = n
    unfold lowerSignals
    split
    · rw [Program.afterSignals_replicate]
      rfl
    · rfl
  | adds | resumesAndAdds => exact ⟨(fun waits => by cases waits), push s⟩
  | remove =>
    obtain ⟨e, eq⟩ := removeBlock_eq s
    rw [eq]
    exact ⟨(fun waits => by cases waits), fun _ => rfl⟩
  | removeNextPending =>
    obtain ⟨tasks, es, -, eq⟩ := removeNextPendingBlock_eq s
    rw [eq]
    exact ⟨(fun waits => by cases waits), fun _ => rfl⟩
  | _ => exact ⟨(fun waits => by cases waits), fun _ => rfl⟩

/-- A call of a growing pool parks in `worker_monitor_` only in `AddWorker`, and only
while the pool is not complete. -/
theorem CallStep.awaits_growth (h : CallStep s id d a o) (grows : a.grows = true)
    (waits : o.self.waitsOn = some .workerMonitor) :
    o.shared = s ∧ s.workerCount ≠ s.workerMaxCount := by
  cases h with
  | addedParks differ => exact ⟨rfl, differ⟩
  | removedParks | lowers => cases grows
  | @started workers => cases workers <;> cases waits
  | startAgain | resumeStart => exact absurd waits (afterSignals_startWait s _).2
  | @raise objects | @register thread objects => cases objects <;> cases waits
  | @startThread object objects created => cases created <;> cases waits
  | @removed caller => cases caller <;> cases waits
  | remove =>
    obtain ⟨e, eq⟩ := removeBlock_eq s
    rw [eq] at waits
    cases waits
  | removeNextPending =>
    obtain ⟨tasks, es, -, eq⟩ := removeNextPendingBlock_eq s
    rw [eq] at waits
    cases waits
  | _ => cases waits

/-- A call of a growing pool makes as much room as it has threads to start. -/
theorem CallStep.growth (h : CallStep s id d a o) (grows : a.grows = true) :
    o.shared.workerMaxCount + toStart d =
      s.workerMaxCount + toStart o.self + total (onWorker entering) o.spawned ∧
    s.workerMaxCount ≤ o.shared.workerMaxCount ∧ (lowered d = 0 → lowered o.self = 0) ∧
    total (onWorker leaving) o.spawned = 0 ∧ total (onWorker announcing) o.spawned = 0 := by
  have calm {f : Worker → Nat} (zero : f .entry = 0) : total (onWorker f) o.spawned = 0 :=
    total_started h fun _ => zero
  refine ⟨?_, ?_, ?_, calm rfl, calm rfl⟩
  · cases h.pool with
    | steady limit spawned same => rw [total_none spawned, same, limit, Nat.add_zero]
    | pushes limit spawned before after =>
      rw [total_none spawned, limit, before.1, after.1, Nat.add_zero]
    | raises objects place block =>
      subst place block
      cases objects <;> rfl
    | starts object objects created place block =>
      subst place
      cases created with
      | none =>
        -- the block is that of a failed creation
        generalize eq : startThreadBlock s object objects none = o' at block
        subst block
        cases h with
        | @startThread _ _ created =>
          cases created with
          | none => cases grows
          | some id => simp [startThreadBlock] at eq
      | some id =>
        subst block
        simp [startThreadBlock, toStart, onWorker, entering, Nat.add_assoc]
    | lowers value caller place =>
      subst place
      cases h <;> cases grows
  · cases h.pool with
    | steady limit | pushes limit => exact Nat.le_of_eq limit.symm
    | raises objects place block =>
      subst block
      exact Nat.le_add_right _ _
    | starts object objects created place block =>
      subst block
      cases created <;> exact Nat.le_refl _
    | lowers value caller place =>
      subst place
      cases h <;> cases grows
  · intro zero
    cases h.pool with
    | steady _ _ _ _ lowering =>
      rcases lowering with same | ⟨none, -⟩
      · exact same ▸ zero
      · exact none
    | pushes _ _ _ after => exact after.2.2
    | raises objects place block =>
      subst block
      cases objects <;> rfl
    | starts object objects created place block =>
      subst block
      cases created <;> rfl
    | lowers value caller place =>
      subst place
      cases h <;> cases grows

end Call

section Step

variable {c c' : Config Impl Thread Event} {mv : Move Act}

theorem growthAccount_spurious (h : GrowthAccount c) {i : Nat} {t : Thread}
    (here : c.threads[i]? = some t) (waits : t.waitsOn ≠ none) :
    GrowthAccount { c with threads := c.threads.set i t.wake } := by
  have worker (f : Worker → Nat) [Steady f] := total_worker_spurious f here waits
  have call (f : Call → Nat) [SteadyCall f] := total_call_spurious f here waits
  have fewer : resizers (c.threads.set i t.wake) ≤ resizers c.threads :=
    threadManager.total_parkedIn_wake_le .workerMonitor here
  obtain ⟨exact, stays, grows, owed⟩ := h
  refine ⟨?_, ?_, ?_, ?_⟩
  · unfold arriving at exact ⊢
    rwa [worker, call]
  · rwa [worker]
  · rwa [call]
  · intro some complete
    rw [worker]
    exact owed (Nat.lt_of_lt_of_le some fewer) complete

variable {i : Nat} {cs : List Nat} {t : Thread} {ts : List Thread}

theorem growthAccount_worker (h : GrowthAccount c) {a : WorkerAct} {o : Effect Worker}
    (here : c.threads[i]? = some t) (idle : t.call = .none)
    (step : WorkerStep c.shared t.ref t.worker a o)
    (delivered : threadManager.deliver o.signals cs c.threads = some ts)
    (ok : WakesLast c (.run i (.worker a) cs)) :
    GrowthAccount ⟨o.shared, ts.set i (t.withWorker idle o.self),
      c.log ++ o.events.map (Prod.mk i)⟩ := by
  have woken := threadManager.deliver_woken delivered
  have call (f : Call → Nat) [SteadyCall f] := total_worker_call f woken here idle o.self
  have entered := total_worker entering woken here idle o.self
  have announced := total_worker announcing woken here idle o.self
  have left := total_worker leaving woken here idle o.self
  have ownEntry := le_total_of_getElem? (onWorker entering) here
  have ownExit := le_total_of_getElem? (onWorker leaving) here
  have ownCall := le_total_of_getElem? (onWorker announcing) here
  have parks := parkedIn_worker .workerMonitor step delivered here idle rfl
  have elsewhere : o.self.waitsOn ≠ some .workerMonitor := by
    cases o.self <;> exact nofun
  rw [if_neg elsewhere, Nat.add_zero] at parks
  have exact := h.exact
  have stays := h.stays
  have limit := step.workerMaxCount
  have none := step.entering
  unfold arriving at exact
  unfold onWorker at ownEntry ownExit ownCall
  obtain ⟨growth, outside⟩ := step.growth (by unfold onWorker at exact; omega) (by omega)
    (by unfold onWorker at stays; omega)
  refine ⟨?_, ?_, ?_, ?_⟩
  · unfold arriving
    dsimp only
    rw [call toStart, limit]
    cases growth with
    | enters before after count => omega
    | announces before act after count => omega
    | works before after other count => omega
  · dsimp only
    omega
  · rw [call lowered]
    exact h.grows
  · intro some complete
    dsimp only at some complete ⊢
    unfold resizers at some
    rw [limit] at complete
    cases growth with
    | enters before after count signals =>
      rw [if_pos (by omega)] at after
      omega
    | announces before act after count signals =>
      rw [signals] at parks
      have one : Program.afterSignals .workerMonitor [Signal.notify Cond.workerMonitor]
          (total (threadManager.parkedIn .workerMonitor) c.threads) =
        total (threadManager.parkedIn .workerMonitor) c.threads - 1 := rfl
      by_cases last : total (onWorker announcing) c.threads = 1
      · have few := ok act (count ▸ complete) last
        unfold resizers at few
        omega
      · have present : 0 < total (onWorker announcing) c.threads :=
          h.owed (by unfold resizers; omega) (count ▸ complete)
        omega
    | works before after other count signals =>
      rw [signals] at parks
      have present := h.owed (by unfold resizers; omega) (count ▸ complete)
      omega

theorem growthAccount_call (h : GrowthAccount c) {a : CallAct} {o : Effect Call}
    (here : c.threads[i]? = some t) (makesCalls : t.worker.makesCalls = true)
    (step : CallStep c.shared t.ref.id t.call a o)
    (delivered : threadManager.deliver o.signals cs c.threads = some ts)
    (grows : a.grows = true) :
    GrowthAccount ⟨o.shared, ts.set i (t.withCall makesCalls o.self) ++ o.spawned,
      c.log ++ o.events.map (Prod.mk i)⟩ := by
  have woken := threadManager.deliver_woken delivered
  have entered := total_call_worker entering woken here makesCalls o.self o.spawned
  have announced := total_call_worker announcing woken here makesCalls o.self o.spawned
  have left := total_call_worker leaving woken here makesCalls o.self o.spawned
  have starting := step.moves_calls toStart rfl woken here makesCalls
  have lowering := step.moves_calls lowered rfl woken here makesCalls
  have ownStart := le_total_of_getElem? (onCall toStart) here
  have ownLower := le_total_of_getElem? (onCall lowered) here
  obtain ⟨room, larger, still, noExit, noAnnounce⟩ := step.growth grows
  obtain ⟨elsewhere, signals⟩ := step.silent
  have parks := parkedIn_call .workerMonitor step delivered here makesCalls rfl elsewhere
  rw [signals] at parks
  have exact := h.exact
  have stays := h.stays
  have noLower := h.grows
  have count := step.counts.1
  unfold arriving at exact
  unfold onCall at ownStart ownLower
  refine ⟨?_, ?_, ?_, ?_⟩
  · unfold arriving
    dsimp only
    unfold onCall at exact starting ⊢
    omega
  · dsimp only
    omega
  · dsimp only
    unfold onCall at noLower lowering ⊢
    have zero := still (by omega)
    omega
  · intro some complete
    dsimp only at some complete ⊢
    unfold resizers at some
    by_cases waits : o.self.waitsOn = Option.some .workerMonitor
    · obtain ⟨same, differ⟩ := step.awaits_growth grows waits
      rw [same] at complete
      exact absurd complete differ
    · rw [if_neg waits] at parks
      have present := h.owed (by unfold resizers; omega) (by omega)
      omega

theorem growthAccount_step (h : GrowthAccount c) (grows : Grows mv) (ok : WakesLast c mv)
    (change : Change c mv c') : GrowthAccount c' := by
  cases change with
  | spurious here waits => exact growthAccount_spurious h here waits
  | worker _ here idle place step delivered =>
    subst place
    exact growthAccount_worker h here idle step delivered ok
  | call _ here makesCalls place step delivered =>
    subst place
    exact growthAccount_call h here makesCalls step delivered grows

/-- The last notification of a complete pool leaves all but one of the parked callers
behind. -/
theorem resizer_left_behind (h : GrowthAccount c) (bad : ¬ WakesLast c mv)
    (change : Change c mv c') : StuckResizer c' := by
  cases change with
  | spurious => exact absurd trivial bad
  | call => exact absurd trivial bad
  | @worker i a cs t w o ts alive here idle place step delivered =>
    subst place
    simp only [WakesLast, Classical.not_imp, Nat.not_le] at bad
    obtain ⟨act, complete, last, many⟩ := bad
    have woken := threadManager.deliver_woken delivered
    have announced := total_worker announcing woken here idle o.self
    have entered := total_worker entering woken here idle o.self
    have lowering := total_worker_call lowered woken here idle o.self
    have parks := parkedIn_worker .workerMonitor step delivered here idle rfl
    have exact := h.exact
    have noLower := h.grows
    unfold arriving at exact
    unfold resizers at many
    generalize place : t.worker = w at step announced entered
    cases step with
    | announced =>
      have one : Program.afterSignals .workerMonitor (announceBlock c.shared).signals
          (total (threadManager.parkedIn .workerMonitor) c.threads) =
        total (threadManager.parkedIn .workerMonitor) c.threads - 1 := rfl
      have calm : announcing (announceBlock c.shared).self = 0 ∧
        entering (announceBlock c.shared).self = 0 ∧
        (announceBlock c.shared).self.waitsOn ≠ some .workerMonitor := ⟨rfl, rfl, nofun⟩
      have before : announcing .announce = 1 ∧ entering .announce = 0 := ⟨rfl, rfl⟩
      rw [one, if_neg calm.2.2] at parks
      refine ⟨?_, ?_, complete, ?_⟩
      · dsimp only
        omega
      · dsimp only
        omega
      · have parked : 0 < total (threadManager.parkedIn .workerMonitor)
            (ts.set i (t.withWorker idle (announceBlock c.shared).self)) := by omega
        obtain ⟨j, u, there, waits⟩ := exists_of_total_pos parked
        refine ⟨u, List.mem_of_getElem? there, ?_⟩
        have notLowered := le_total_of_getElem? (onCall lowered) there
        rw [lowering, noLower] at notLowered
        rw [parkedIn_thread] at waits
        split at waits
        · rcases waits_workerMonitor_iff.mp ‹_› with added | ⟨caller, removed⟩
          · exact added
          · rw [onCall, removed] at notLowered
            exact absurd notLowered (Nat.not_le_of_gt Nat.one_pos)
        · cases waits
    | _ => cases act

end Step

theorem GrowthAccount.not_stuck {c : Config Impl Thread Event} (h : GrowthAccount c) :
    ¬ StuckResizer c := by
  rintro ⟨-, announced, complete, t, mem, parked⟩
  have waits := le_total (threadManager.parkedIn .workerMonitor) mem
  have one : threadManager.parkedIn .workerMonitor t = 1 := by
    rw [parkedIn_thread, if_pos (waits_workerMonitor_iff.mpr (.inl parked))]
  have owed := h.owed (by unfold resizers; omega) complete
  omega

theorem AtRest.account {c : Config Impl Thread Event} (h : AtRest c) : GrowthAccount c := by
  have worker (f : Worker → Nat) (zero : ∀ w, w.settled = true → f w = 0) :
      total (onWorker f) c.threads = 0 :=
    total_eq_zero.mpr fun t ht => zero _ (h.workers t ht)
  have call (f : Call → Nat) (zero : f .none = 0) : total (onCall f) c.threads = 0 :=
    total_eq_zero.mpr fun t ht => by rw [onCall, h.idle t ht, zero]
  have entered : total (onWorker entering) c.threads = 0 :=
    worker entering fun w fine => by cases w <;> first | rfl | cases fine
  have left : total (onWorker leaving) c.threads = 0 :=
    worker leaving fun w fine => by cases w <;> first | rfl | cases fine
  have nobody : resizers c.threads = 0 := total_eq_zero.mpr fun t ht => by
    rw [parkedIn_thread, waitsOn_of_idle (h.idle t ht)]
    cases t.worker <;> rfl
  refine ⟨?_, left, call lowered rfl, fun some => ?_⟩
  · rw [arriving, entered, call toStart rfl]
    exact h.complete
  · omega

/-- No `AddWorker` caller is ever stuck along a schedule of a growing pool exactly if the
last notification of a complete pool never finds more than one caller parked. -/
theorem no_stuck_resizer_iff (c₀ : Config Impl Thread Event) (settled : AtRest c₀)
    (mvs : List (Move Act)) (domain : ∀ mv ∈ mvs, Grows mv) :
    threadManager.Throughout (fun c => ¬ StuckResizer c) c₀ mvs ↔
      threadManager.EachStep WakesLast c₀ mvs :=
  Program.throughout_iff_within GrowthAccount.not_stuck
    (fun h grows ok step => growthAccount_step h grows ok (change_of_step step))
    (fun h _ bad step => not_not.mpr (resizer_left_behind h bad (change_of_step step)))
    settled.account domain

/-- A client's `AddWorker(1)` up to the registration of its thread. -/
def addOne (client id : Nat) : List (Move Act) :=
  [.run client (.call (.addWorker 1)) [], .run client (.call .newThreads) [],
    .run client (.call .raise) [], .run client (.call (.startThread (some id))) [],
    .run client (.call .register) []]

/-- Two clients add a worker each, one after the other. -/
def addInTurn : List (Move Act) :=
  [.run 0 (.call (.setThreadFactory true)) []] ++ addOne 0 7 ++
    [.run 0 (.call .awaitAdded) [], .run 2 (.worker .enter) [], .run 2 (.worker .announce) [0],
      .run 0 (.call .awaitAdded) []] ++ addOne 1 8 ++
    [.run 3 (.worker .enter) [], .run 3 (.worker .announce) [], .run 1 (.call .awaitAdded) []]

theorem no_stuck_resizer_iff_addInTurn : AtRest (fresh [1, 2]) ∧
    threadManager.Throughout (fun c => ¬ StuckResizer c) (fresh [1, 2]) addInTurn := by
  have settled : AtRest (fresh [1, 2]) := by decide
  exact ⟨settled, (no_stuck_resizer_iff _ settled addInTurn (by decide)).mpr (by decide)⟩

/-- Both clients wait for both workers, and the second worker wakes one of them. -/
def addAtOnce : List (Move Act) :=
  [.run 0 (.call (.setThreadFactory true)) []] ++ addOne 0 7 ++ addOne 1 8 ++
    [.run 0 (.call .awaitAdded) [], .run 1 (.call .awaitAdded) [], .run 2 (.worker .enter) [],
      .run 3 (.worker .enter) [], .run 3 (.worker .announce) [0], .run 0 (.call .awaitAdded) []]

theorem second_resizer_stuck : ∃ c, threadManager.Run (fun _ mv => Grows mv) (fresh [1, 2]) c ∧
    StuckResizer c ∧ (c.threads[1]?).map Thread.call = some .addedParked ∧
    c.log = [(0, .returned .addWorker)] :=
  threadManager.exists_run _ _ _ addAtOnce (by decide)

end Threads.Manager
