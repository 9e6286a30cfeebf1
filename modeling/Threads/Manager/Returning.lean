import Threads.Manager.Rest

/-!
# Calls that change the size of the pool come back

`AddWorker`, `RemoveWorker`, `Stop` and `Join` wait until `worker_count_` equals
`worker_max_count_`. While they take turns, threads can be created and no more workers
leave than are to leave, the pool at rest is complete and nobody is left waiting.
-/

namespace Threads.Manager

open Concurrency

/-- An iteration of the loop, which begins with the test `IsActive()`. -/
def WorkerAct.testsActive : WorkerAct → Bool
  | .iterate _ | .resume _ => true
  | _ => false

def CallAct.failsToStart : CallAct → Bool
  | .startThread none => true
  | _ => false

/-- Every creation succeeds, and a worker finds itself inactive only while those that have not
left yet are still too many. -/
def LeavesCleanly (c : Config Impl Thread Event) : Move Act → Prop
  | .run _ (.worker a) _ => a.testsActive = true → c.shared.isActive = false →
    c.shared.workerMaxCount + total (onWorker leaving) c.threads < c.shared.workerCount
  | .run _ (.call a) _ => a.failsToStart = false
  | .spurious _ => True

instance (c : Config Impl Thread Event) : DecidablePred (LeavesCleanly c)
  | .spurious _ => isTrue trivial
  | .run _ (.worker _) _ => inferInstanceAs (Decidable (_ → _))
  | .run _ (.call a) _ => inferInstanceAs (Decidable (a.failsToStart = false))

/-- The calls that change the size of the pool take turns, too. -/
def ResizesCleanly (c : Config Impl Thread Event) (mv : Move Act) : Prop :=
  InTurn c mv ∧ LeavesCleanly c mv

instance (c : Config Impl Thread Event) (mv : Move Act) : Decidable (ResizesCleanly c mv) :=
  inferInstanceAs (Decidable (InTurn c mv ∧ LeavesCleanly c mv))

/-- One for a `StopImpl` that has written `state_` and has still to write `STOPPED`. -/
def shutting : Call → Nat
  | .readCount _ | .finishStop _ _ => 1
  | .removeWorker _ (.stopImpl _) | .awaitRemoved (.stopImpl _) | .removedParked (.stopImpl _) => 1
  | _ => 0

instance : SteadyCall shutting where
  wake c := by
    cases c with
    | removedParked caller => cases caller <;> rfl
    | _ => rfl

/-- What `StopImpl` asks `RemoveWorker` to remove is there. -/
def Call.covered (limit : Nat) : Call → Prop
  | .removeWorker value (.stopImpl _) => value ≤ limit
  | _ => True

structure ResizeAccount (c : Config Impl Thread Event) : Prop where
  pool : PoolAccount c
  enough : c.shared.workerMaxCount + total (onWorker leaving) c.threads ≤
    c.shared.workerCount + arriving c.threads
  owed : 0 < resizers c.threads → c.shared.workerCount = c.shared.workerMaxCount →
    0 < total (onWorker announcing) c.threads
  covered : ∀ t ∈ c.threads, t.call.covered c.shared.workerMaxCount
  closing : c.shared.state = .joining ∨ c.shared.state = .stopping →
    0 < total (onCall shutting) c.threads

/-! ## Who changes the size of the pool -/

section Alone

variable {c : Config Impl Thread Event} {i : Nat} {t : Thread}

/-- While a call changes the size of the pool, it alone contributes to a total over such calls. -/
theorem total_alone {f : Call → Nat} (bounded : ∀ d, f d ≤ resizes d) {ts : List Thread}
    (one : total (onCall resizes) ts ≤ 1) (here : ts[i]? = some t) (mine : resizes t.call = 1) :
    total (onCall f) ts = f t.call := by
  obtain ⟨g, split⟩ : ∃ g : Call → Nat, ∀ d, resizes d = f d + g d :=
    ⟨fun d => resizes d - f d, fun d => (Nat.add_sub_of_le (bounded d)).symm⟩
  have both : total (onCall resizes) ts = total (onCall f) ts + total (onCall g) ts := by
    rw [← total_add]
    exact total_congr (List.forall₂_same.mpr fun u _ => split u.call)
  have own := le_total_of_getElem? (onCall f) here
  have rest := le_total_of_getElem? (onCall g) here
  have mineSplit := split t.call
  have ownCall : onCall f t = f t.call := rfl
  have restCall : onCall g t = g t.call := rfl
  omega

/-- Whoever waits in `worker_monitor_` changes the size of the pool. -/
theorem resizers_le (ts : List Thread) : resizers ts ≤ total (onCall resizes) ts := by
  apply total_mono
  intro t _
  rw [parkedIn_thread]
  split
  · rcases waits_workerMonitor_iff.mp ‹_› with added | ⟨caller, removed⟩
    · exact Nat.le_of_eq (by rw [onCall, added]; rfl)
    · exact Nat.le_of_eq (by rw [onCall, removed]; rfl)
  · exact Nat.zero_le _

end Alone

/-! ## One block -/

section Worker

variable {s : Impl} {ref : ThreadRef} {w : Worker} {a : WorkerAct} {o : Effect Worker}

theorem workBlock_leaving (s : Impl) (env : Surroundings) :
    leaving (workBlock s env).self = 0 := (workBlock_growth s env).2.1

/-- A worker takes the room that was made for it and gives it up when it is counted out; it
is on the way out from the test that fails. -/
theorem WorkerStep.balance (h : WorkerStep s ref w a o)
    (room : w = .entry → s.workerCount < s.workerMaxCount)
    (positive : a = .exit → 0 < s.workerCount) :
    (o.shared.workerCount + Manager.entering o.self + leaving w =
        s.workerCount + Manager.entering w + leaving o.self) ∨
      a.testsActive = true ∧ s.isActive = false ∧ o.shared.workerCount = s.workerCount ∧
        Manager.entering w = 0 ∧ Manager.entering o.self = 0 ∧ leaving w = 0 ∧
          leaving o.self = 1 := by
  cases h with
  | enters =>
    left
    dsimp only
    split <;> rfl
  | refused noRoom => exact absurd (room rfl) (Nat.not_lt.mpr noRoom)
  | works | wakesAndWorks =>
    left
    rw [workBlock_entering, workBlock_leaving, workBlock_workerCount]
    rfl
  | leaves inactive | wakesAndLeaves inactive => exact .inr ⟨rfl, inactive, rfl, rfl, rfl, rfl, rfl⟩
  | exited =>
    left
    have some := positive rfl
    simp only [exitBlock, decrement_of_pos some, Manager.entering, leaving]
    omega
  | _ => exact .inl rfl

/-- What a block of a worker does for those who wait in `worker_monitor_`. -/
inductive WorkerNotice (s : Impl) (w : Worker) (o : Effect Worker) : Prop
  | enters (after : announcing o.self = if s.workerCount + 1 = s.workerMaxCount then 1 else 0)
      (before : announcing w = 0) (count : o.shared.workerCount = s.workerCount + 1)
      (signals : o.signals = [])
  | notifies (signals : o.signals = [.notify .workerMonitor])
  | exits (incomplete : o.shared.workerCount ≠ s.workerMaxCount)
      (signals : o.signals = [])
  | goesOn (same : announcing o.self = announcing w) (count : o.shared.workerCount = s.workerCount)
      (signals : ∀ n, Program.afterSignals .workerMonitor o.signals n = n)

theorem WorkerStep.notice (h : WorkerStep s ref w a o) : WorkerNotice s w o := by
  cases h with
  | enters =>
    refine .enters ?_ rfl rfl rfl
    dsimp only
    split <;> rfl
  | announced => exact .notifies rfl
  | works | wakesAndWorks =>
    obtain ⟨silent, -, signals⟩ := workBlock_growth _ _
    exact .goesOn silent (workBlock_workerCount _ _) signals
  | exited =>
    by_cases complete : decrement s.workerCount = s.workerMaxCount
    · exact .notifies (if_pos complete)
    · exact .exits complete (if_neg complete)
  | _ => exact .goesOn rfl rfl fun _ => rfl

end Worker

section Call

variable {s : Impl} {id : Nat} {d : Call} {a : CallAct} {o : Effect Call}

/-- A call parks in `worker_monitor_` only while the pool is not complete. -/
theorem CallStep.awaits_size (h : CallStep s id d a o)
    (waits : o.self.waitsOn = some .workerMonitor) :
    o.shared = s ∧ s.workerCount ≠ s.workerMaxCount := by
  cases h with
  | addedParks differ | removedParks differ => exact ⟨rfl, differ⟩
  | @started workers => cases workers <;> cases waits
  | startAgain | resumeStart => exact absurd waits (afterSignals_startWait s _).2
  | @raise objects | @register thread objects => cases objects <;> cases waits
  | @startThread object objects created => cases created <;> cases waits
  | @removed caller => cases caller <;> cases waits
  | remove =>
    obtain ⟨e, eq⟩ := removeBlock_eq s
    rw [eq] at waits
    cases waits
  | removeNextPending =>
    obtain ⟨tasks, es, -, eq⟩ := removeNextPendingBlock_eq s
    rw [eq] at waits
    cases waits
  | _ => cases waits

/-- Only a call that changes the size of the pool writes the limit. -/
theorem CallStep.keeps_limit (h : CallStep s id d a o) (other : Manager.resizes d = 0) :
    o.shared.workerMaxCount = s.workerMaxCount := by
  cases h.pool with
  | steady limit | pushes limit => exact limit
  | raises objects place | starts objects others created place | lowers value caller place =>
    rw [place] at other
    cases other

/-- What a call does to the room in the pool and to the threads that are to fill it. -/
theorem CallStep.balance (h : CallStep s id d a o) (creates : a.failsToStart = false) :
    o.shared.workerMaxCount + toStart d ≤
      s.workerMaxCount + toStart o.self + total (onWorker entering) o.spawned := by
  cases h.pool with
  | steady limit spawned same =>
    rw [limit, same]
    exact Nat.le_add_right _ _
  | pushes limit spawned before after =>
    rw [limit, before.1, after.1]
    exact Nat.le_add_right _ _
  | raises objects place block =>
    subst place block
    cases objects <;> exact Nat.le_refl _
  | starts object objects created place block =>
    subst place
    cases created with
    | none =>
      -- the block of a failed creation is not that of a step that succeeds
      generalize eq : startThreadBlock s object objects none = o' at block
      subst block
      cases h with
      | @startThread _ _ created =>
        cases created with
        | none => cases creates
        | some id => simp [startThreadBlock] at eq
    | some id =>
      subst block
      simp [startThreadBlock, toStart, onWorker, entering, Nat.add_assoc]
  | lowers value caller place limit tasks after spawned =>
    subst place
    rw [limit, after.1, total_none spawned]
    exact Nat.le_trans (Nat.sub_le _ _) (Nat.le_refl _)

/-- A shutdown that has begun goes on, unless it finds fewer workers than it is to remove. -/
theorem CallStep.shuts (h : CallStep s id d a o) :
    (o.shared.state ≠ .joining ∧ o.shared.state ≠ .stopping) ∨ shutting o.self = 1 ∨
      (o.shared.state = s.state ∧ shutting d = 0) ∨
        ∃ value join, d = .removeWorker value (.stopImpl join) ∧ s.workerMaxCount < value := by
  cases h with
  | started => exact .inl ⟨nofun, nofun⟩
  | finishStop => exact .inl ⟨nofun, nofun⟩
  | shutsDown | readCount | skipsRemoval => exact .inr (.inl rfl)
  | @lowers value caller | @removedParks caller | @removed caller =>
    cases caller with
    | client => exact .inr (.inr (.inl ⟨rfl, rfl⟩))
    | stopImpl => exact .inr (.inl rfl)
  | @lowerFails value caller tooMany =>
    cases caller with
    | client => exact .inr (.inr (.inl ⟨rfl, rfl⟩))
    | stopImpl join => exact .inr (.inr (.inr ⟨value, join, rfl, tooMany⟩))
  | startAgain | resumeStart =>
    rw [startWaitBlock_shared]
    exact .inr (.inr (.inl ⟨rfl, rfl⟩))
  | startThread =>
    rw [startThreadBlock_shared]
    exact .inr (.inr (.inl ⟨rfl, rfl⟩))
  | remove =>
    rw [removeBlock_shared]
    exact .inr (.inr (.inl ⟨rfl, rfl⟩))
  | removeNextPending =>
    obtain ⟨tasks, -, eq⟩ := removeNextPendingBlock_shared s
    rw [eq]
    exact .inr (.inr (.inl ⟨rfl, rfl⟩))
  | _ => exact .inr (.inr (.inl ⟨rfl, rfl⟩))

/-- `StopImpl` asks for as many workers as it has counted. -/
theorem CallStep.covered (h : CallStep s id d a o) (counts : d.waitsOn = none →
      (∃ join, d = .readCount join) → s.workerCount ≤ s.workerMaxCount) :
    o.self.covered o.shared.workerMaxCount := by
  have after (workers : Option Nat) (limit : Nat) : (Call.afterStart workers).covered limit := by
    cases workers <;> trivial
  have loop (objects : List Nat) (limit : Nat) : (Call.startLoop objects).covered limit := by
    cases objects <;> trivial
  cases h with
  | readCount => exact counts rfl ⟨_, rfl⟩
  | started => exact after _ _
  | startAgain | resumeStart =>
    unfold startWaitBlock
    split
    · trivial
    · exact after _ _
  | raise | register => exact loop _ _
  | @startThread object objects created => cases created <;> trivial
  | @removed caller => cases caller <;> trivial
  | remove =>
    obtain ⟨e, eq⟩ := removeBlock_eq s
    rw [eq]
    trivial
  | removeNextPending =>
    obtain ⟨tasks, es, -, eq⟩ := removeNextPendingBlock_eq s
    rw [eq]
    trivial
  | _ => trivial

end Call

/-! ## One step -/

theorem covered_wake (limit : Nat) (d : Call) (h : d.covered limit) : d.wake.covered limit := by
  cases d <;> exact h

theorem covered_or_resizes (d : Call) : (∀ limit, d.covered limit) ∨ resizes d = 1 := by
  cases d with
  | removeWorker => exact .inr rfl
  | _ => exact .inl fun _ => trivial

section Step

variable {c c' : Config Impl Thread Event} {mv : Move Act} {i : Nat} {cs : List Nat} {t : Thread}
variable {ts : List Thread}

theorem resizeAccount_spurious (h : ResizeAccount c) (here : c.threads[i]? = some t)
    (waits : t.waitsOn ≠ none) : ResizeAccount { c with threads := c.threads.set i t.wake } := by
  have worker (f : Worker → Nat) [Steady f] := total_worker_spurious f here waits
  have call (f : Call → Nat) [SteadyCall f] := total_call_spurious f here waits
  have fewer : resizers (c.threads.set i t.wake) ≤ resizers c.threads :=
    threadManager.total_parkedIn_wake_le .workerMonitor here
  obtain ⟨pool, enough, owed, covered, closing⟩ := h
  refine ⟨poolAccount_spurious pool here waits, ?_, ?_, fun u mem => ?_, ?_⟩
  · unfold arriving at enough ⊢
    dsimp only
    rwa [worker, worker, call]
  · intro some complete
    rw [worker]
    exact owed (Nat.lt_of_lt_of_le some fewer) complete
  · rcases List.mem_or_eq_of_mem_set mem with old | rfl
    · exact covered u old
    · exact covered_wake _ _ (covered t (List.mem_of_getElem? here))
  · intro closed
    rw [call]
    exact closing closed

/-- At most one call waits, so one notification wakes whoever waits. -/
theorem ResizeAccount.few (h : ResizeAccount c) : resizers c.threads ≤ 1 :=
  (resizers_le c.threads).trans h.pool.inTurn

theorem ResizeAccount.owed_worker (h : ResizeAccount c) {a : WorkerAct} {o : Effect Worker}
    (here : c.threads[i]? = some t) (idle : t.call = .none)
    (step : WorkerStep c.shared t.ref t.worker a o)
    (delivered : threadManager.deliver o.signals cs c.threads = some ts)
    (some : 0 < resizers (ts.set i (t.withWorker idle o.self)))
    (complete : o.shared.workerCount = o.shared.workerMaxCount) :
    0 < total (onWorker announcing) (ts.set i (t.withWorker idle o.self)) := by
  have woken := threadManager.deliver_woken delivered
  have announced := total_worker announcing woken here idle o.self
  have own := le_total_of_getElem? (onWorker announcing) here
  have parks := parkedIn_worker .workerMonitor step delivered here idle rfl
  have few := h.few
  have limit := step.workerMaxCount
  have elsewhere : o.self.waitsOn ≠ Option.some .workerMonitor := by
    cases o.self <;> exact nofun
  rw [if_neg elsewhere, Nat.add_zero] at parks
  unfold resizers at some few
  unfold onWorker at own
  cases step.notice with
  | enters after before count signals =>
    rw [if_pos (by omega)] at after
    omega
  | notifies signals =>
    rw [signals] at parks
    have one : Program.afterSignals .workerMonitor [Signal.notify Cond.workerMonitor]
        (total (threadManager.parkedIn .workerMonitor) c.threads) =
      total (threadManager.parkedIn .workerMonitor) c.threads - 1 := rfl
    omega
  | exits incomplete => omega
  | goesOn same count signals =>
    rw [signals] at parks
    have present := h.owed (by unfold resizers; omega) (by omega)
    omega

theorem resizeAccount_worker (h : ResizeAccount c) {a : WorkerAct} {o : Effect Worker}
    (here : c.threads[i]? = some t) (idle : t.call = .none)
    (step : WorkerStep c.shared t.ref t.worker a o)
    (delivered : threadManager.deliver o.signals cs c.threads = some ts)
    (ok : ResizesCleanly c (.run i (.worker a) cs))
    (pool : PoolAccount ⟨o.shared, ts.set i (t.withWorker idle o.self),
      c.log ++ o.events.map (Prod.mk i)⟩) :
    ResizeAccount ⟨o.shared, ts.set i (t.withWorker idle o.self),
      c.log ++ o.events.map (Prod.mk i)⟩ := by
  have woken := threadManager.deliver_woken delivered
  have call (f : Call → Nat) [SteadyCall f] := total_worker_call f woken here idle o.self
  have entered := total_worker entering woken here idle o.self
  have left := total_worker leaving woken here idle o.self
  have limit := step.workerMaxCount
  have enough := h.enough
  refine ⟨pool, ?_, h.owed_worker here idle step delivered, ?_, ?_⟩
  · unfold arriving at enough ⊢
    dsimp only
    rw [call toStart, limit]
    rcases step.balance (h.pool.room here) (exit_positive h.pool.accepted h.pool.counts here step)
      with balance | ⟨tests, inactive, count, before, after, inside, outside⟩
    · omega
    · have more := ok.2 tests inactive
      omega
  · dsimp only
    rw [limit]
    exact forall_worker (covered_wake _) woken here idle o.self h.covered
  · intro closed
    have same := step.state
    dsimp only at closed ⊢
    rw [call shutting]
    exact h.closing (same ▸ closed)

theorem ResizeAccount.owed_call (h : ResizeAccount c) {a : CallAct} {o : Effect Call}
    (here : c.threads[i]? = some t) (makesCalls : t.worker.makesCalls = true)
    (step : CallStep c.shared t.ref.id t.call a o)
    (delivered : threadManager.deliver o.signals cs c.threads = some ts)
    (some : 0 < resizers (ts.set i (t.withCall makesCalls o.self) ++ o.spawned))
    (complete : o.shared.workerCount = o.shared.workerMaxCount) :
    0 < total (onWorker announcing) (ts.set i (t.withCall makesCalls o.self) ++ o.spawned) := by
  have woken := threadManager.deliver_woken delivered
  have announced := step.keeps_workers announcing rfl woken here makesCalls
  obtain ⟨elsewhere, signals⟩ := step.silent
  have parks := parkedIn_call .workerMonitor step delivered here makesCalls rfl elsewhere
  rw [signals] at parks
  by_cases waits : o.self.waitsOn = Option.some .workerMonitor
  · obtain ⟨same, differ⟩ := step.awaits_size waits
    rw [same] at complete
    exact absurd complete differ
  · rw [if_neg waits, Nat.add_zero] at parks
    have present : 0 < resizers c.threads := Nat.lt_of_lt_of_eq some parks
    -- whoever waits is the one that changes the size of the pool
    obtain ⟨j, u, there, parked⟩ := exists_of_total_pos present
    have waiting : resizes u.call = 1 := by
      rw [parkedIn_thread] at parked
      split at parked
      · rcases waits_workerMonitor_iff.mp ‹_› with added | ⟨caller, removed⟩
        · rw [added]
          rfl
        · rw [removed]
          rfl
      · cases parked
    have other : i ≠ j := by
      rintro rfl
      rw [here] at there
      obtain rfl := Option.some.inj there
      rw [parkedIn_thread, waitsOn_of_working makesCalls, if_neg elsewhere] at parked
      cases parked
    have both := add_le_total (onCall resizes) other here there
    have one := h.pool.inTurn
    have mine : onCall resizes t = resizes t.call := rfl
    have theirs : onCall resizes u = resizes u.call := rfl
    have limit := step.keeps_limit (by omega)
    have count := step.counts.1
    rw [announced]
    exact h.owed present (by omega)

/-- The limit that a `StopImpl` about to remove its workers has seen is not lowered by others. -/
theorem ResizeAccount.covered_call (h : ResizeAccount c) {a : CallAct} {o : Effect Call}
    (here : c.threads[i]? = some t) (makesCalls : t.worker.makesCalls = true)
    (step : CallStep c.shared t.ref.id t.call a o) (woken : threadManager.Woken c.threads ts) :
    ∀ u ∈ ts.set i (t.withCall makesCalls o.self) ++ o.spawned,
      u.call.covered o.shared.workerMaxCount := by
  apply forall_call (covered_wake _) trivial step woken makesCalls
  · apply step.covered
    rintro - ⟨join, reads⟩
    rcases h.pool.limit with limit | lowering
    · exact Nat.le_trans (Nat.le_add_right _ _) limit
    · have alone : total (onCall lowered) c.threads = lowered t.call :=
        total_alone (fun d => by cases d <;> simp [lowered, resizes]) h.pool.inTurn here
          (by rw [reads]; rfl)
      rw [alone, reads] at lowering
      cases lowering
  · intro j u other there
    rcases covered_or_resizes u.call with fine | resizing
    · exact fine _
    · have both := add_le_total (onCall resizes) other.symm here there
      have one := h.pool.inTurn
      have mine : onCall resizes t = resizes t.call := rfl
      have theirs : onCall resizes u = resizes u.call := rfl
      rw [step.keeps_limit (by omega)]
      exact h.covered u (List.mem_of_getElem? there)

theorem resizeAccount_call (h : ResizeAccount c) {a : CallAct} {o : Effect Call}
    (here : c.threads[i]? = some t) (makesCalls : t.worker.makesCalls = true)
    (step : CallStep c.shared t.ref.id t.call a o)
    (delivered : threadManager.deliver o.signals cs c.threads = some ts)
    (creates : a.failsToStart = false)
    (pool : PoolAccount ⟨o.shared, ts.set i (t.withCall makesCalls o.self) ++ o.spawned,
      c.log ++ o.events.map (Prod.mk i)⟩) :
    ResizeAccount ⟨o.shared, ts.set i (t.withCall makesCalls o.self) ++ o.spawned,
      c.log ++ o.events.map (Prod.mk i)⟩ := by
  have woken := threadManager.deliver_woken delivered
  have entered := total_call_worker entering woken here makesCalls o.self o.spawned
  have left := step.keeps_workers leaving rfl woken here makesCalls
  have starting := step.moves_calls toStart rfl woken here makesCalls
  have shuts := step.moves_calls shutting rfl woken here makesCalls
  have ownShut := le_total_of_getElem? (onCall shutting) here
  have balance := step.balance creates
  have count := step.counts.1
  have enough := h.enough
  refine ⟨pool, ?_, h.owed_call here makesCalls step delivered,
    h.covered_call here makesCalls step woken, ?_⟩
  · unfold arriving at enough ⊢
    dsimp only
    omega
  · intro closed
    dsimp only at closed ⊢
    unfold onCall at ownShut shuts ⊢
    rcases step.shuts with open_ | one | ⟨same, zero⟩ | ⟨value, join, place, tooMany⟩
    · exact absurd closed (not_or.mpr open_)
    · omega
    · have before := h.closing (same ▸ closed)
      unfold onCall at before
      omega
    · have enoughThere := h.covered t (List.mem_of_getElem? here)
      rw [place] at enoughThere
      exact absurd enoughThere (Nat.not_le.mpr tooMany)

theorem resizeAccount_step (h : ResizeAccount c) (ok : ResizesCleanly c mv)
    (change : Change c mv c') : ResizeAccount c' := by
  have pool := poolAccount_step h.pool ok.1 change
  cases change with
  | spurious here waits => exact resizeAccount_spurious h here waits
  | worker _ here idle place step delivered =>
    subst place
    exact resizeAccount_worker h here idle step delivered ok pool
  | call _ here makesCalls place step delivered =>
    subst place
    exact resizeAccount_call h here makesCalls step delivered ok.2 pool

theorem resizeAccount_fresh (clients : List Nat) : ResizeAccount (fresh clients) where
  pool := poolAccount_fresh clients
  enough := by
    have left : total (onWorker leaving) (fresh clients).threads = 0 :=
      total_fresh clients fun _ => rfl
    rw [left]
    exact Nat.zero_le _
  owed some := by
    have nobody : resizers (fresh clients).threads = 0 := total_fresh clients fun _ => rfl
    omega
  covered t mem := by
    obtain ⟨_, -, rfl⟩ := List.mem_map.mp mem
    trivial
  closing closed := by
    rcases closed with state | state <;> cases state

theorem resizeAccount_of_run {clients : List Nat}
    (run : threadManager.Run ResizesCleanly (fresh clients) c) : ResizeAccount c :=
  run.invariant (resizeAccount_fresh clients) fun h ok step =>
    resizeAccount_step h ok (change_of_step step)

end Step

/-! ## The pool at rest -/

/-- Every call is over, but for an `Add` without a timeout that is parked in `max_monitor_`; the
pool is complete, its workers are parked, and a shutdown that began is finished. -/
structure CameBack (c : Config Impl Thread Event) : Prop where
  calls : ∀ t ∈ c.threads, t.call = .none ∨ ∃ r, t.call = .addParked r ∧ r.timeout ≤ 0
  complete : c.shared.workerCount = c.shared.workerMaxCount
  parked : parked c.threads = c.shared.workerCount
  finished : c.shared.state ≠ .joining ∧ c.shared.state ≠ .stopping

section AtRest

variable {c : Config Impl Thread Event}

/-- A call at rest waits for workers or for room in the queue. -/
theorem ResizeAccount.call_at_rest (h : ResizeAccount c) (sane : Sane c)
    (alive : c.shared.terminated = false) (rests : threadManager.Resting Continues c)
    (factory : c.shared.threadFactory = true) {t : Thread} (mem : t ∈ c.threads) :
    t.call = .none ∨ (∃ r, t.call = .addParked r ∧ r.timeout ≤ 0) ∨
      t.call = .addedParked ∨ ∃ caller, t.call = .removedParked caller := by
  have still := (resting_iff.mp rests).resolve_left (by simp [alive]) t mem
  have noStart := le_total (onCall startWaits) mem
  have started := sane.nonempty t mem
  rw [h.pool.noStart] at noStart
  unfold onCall at noStart
  unfold Thread.still at still
  split at still
  · exact .inl ‹_›
  · rw [‹t.call = _›] at noStart
    cases noStart
  · exact .inr (.inr (.inl ‹_›))
  · exact .inr (.inr (.inr ⟨_, ‹_›⟩))
  · exact absurd ‹_› started
  · exact .inr (.inl ⟨_, ‹_›, of_decide_eq_true still⟩)
  · rw [factory] at still
    cases still
  · cases still

/-- A pool at rest with workers parked in it is complete: those that wait for it to become
so would have been woken. -/
theorem ResizeAccount.complete_at_rest (h : ResizeAccount c) (sane : Sane c)
    (alive : c.shared.terminated = false) (rests : threadManager.Resting Continues c)
    (back : TasksReturn c) (factory : c.shared.threadFactory = true) :
    c.shared.workerCount = c.shared.workerMaxCount ∧
      Manager.parked c.threads = c.shared.workerCount := by
  have none (f : Worker → Nat) (absent : f .absent = 0) (parked : f .parked = 0)
      (finished : f .finished = 0) : total (onWorker f) c.threads = 0 :=
    total_eq_zero.mpr fun t mem => by
      unfold onWorker
      rcases sane.worker_at_rest alive rests back mem with place | place | place <;> rw [place] <;>
        assumption
  have entered : total (onWorker entering) c.threads = 0 := none entering rfl rfl rfl
  have started : total (onCall toStart) c.threads = 0 := total_eq_zero.mpr fun t mem => by
    unfold onCall
    rcases h.call_at_rest sane alive rests factory mem with
      place | ⟨r, place, -⟩ | place | ⟨_, place⟩ <;>
      rw [place] <;> rfl
  have enough := h.enough
  have counts := h.pool.counts
  have counted := sane.parked_at_rest alive rests back (f := activated) rfl rfl (Nat.le_refl _)
  have within := h.pool.awake
  have asleep := parked_le c.threads
  have noStart := h.pool.noStart
  have idle : total (onWorker Manager.idle) c.threads ≤ total (onWorker activated) c.threads := by
    apply total_mono
    intro t _
    unfold onWorker
    cases t.worker <;> simp [Manager.idle, activated]
  rw [arriving, entered, started] at enough
  unfold CountsActivated at counts
  omega

theorem ResizeAccount.cameBack (h : ResizeAccount c) (sane : Sane c)
    (alive : c.shared.terminated = false) (rests : threadManager.Resting Continues c)
    (back : TasksReturn c) (factory : c.shared.threadFactory = true) : CameBack c := by
  obtain ⟨complete, all⟩ := h.complete_at_rest sane alive rests back factory
  have silent : total (onWorker announcing) c.threads = 0 := total_eq_zero.mpr fun t mem => by
    unfold onWorker
    rcases sane.worker_at_rest alive rests back mem with place | place | place <;>
      rw [place] <;>
      rfl
  have nobody : resizers c.threads = 0 := by
    by_contra some
    have owed := h.owed (Nat.pos_of_ne_zero some) complete
    omega
  have calls (t : Thread) (mem : t ∈ c.threads) :
      t.call = .none ∨ ∃ r, t.call = .addParked r ∧ r.timeout ≤ 0 := by
    have waiting := total_eq_zero.mp nobody t mem
    rw [parkedIn_thread] at waiting
    rcases h.call_at_rest sane alive rests factory mem with place | place | place | place
    · exact .inl place
    · exact .inr place
    · rw [if_pos (waits_workerMonitor_iff.mpr (.inl place))] at waiting
      cases waiting
    · rw [if_pos (waits_workerMonitor_iff.mpr (.inr place))] at waiting
      cases waiting
  refine ⟨calls, complete, all, ?_⟩
  have shut : total (onCall shutting) c.threads = 0 := total_eq_zero.mpr fun t mem => by
    unfold onCall
    rcases calls t mem with place | ⟨r, place, -⟩ <;> rw [place] <;> rfl
  have closing := h.closing
  refine ⟨fun joining => ?_, fun stopping => ?_⟩
  · have some := closing (.inl joining)
    omega
  · have some := closing (.inr stopping)
    omega

end AtRest

/-- Under the conditions on its steps a run comes to rest only when every `AddWorker`,
`RemoveWorker`, `Stop` and `Join` in it is over. -/
theorem resizes_come_back (clients : List Nat) (c : Config Impl Thread Event)
    (run : threadManager.Run ResizesCleanly (fresh clients) c)
    (rests : threadManager.Resting Continues c) (alive : c.shared.terminated = false)
    (factory : c.shared.threadFactory = true) (back : TasksReturn c) : CameBack c :=
  (resizeAccount_of_run run).cameBack (sane_of_reach run.reach) alive rests back factory

/-- A client waits for its worker to enter the pool and then, in `Join`, for it to leave. -/
def growAndJoin : List (Move Act) :=
  [.run 0 (.call (.setThreadFactory true)) [], .run 0 (.call (.start none)) [],
    .run 0 (.call .lockStart) []] ++ addOne 0 7 ++
    [.run 0 (.call .awaitAdded) [], .run 1 (.worker .enter) [], .run 1 (.worker .announce) [0],
      .run 0 (.call .awaitAdded) [], .run 1 (.worker (.iterate ⟨fun _ => 0, none⟩)) [],
      .run 0 (.call (.stop true)) [], .run 0 (.call .lockStop) [], .run 0 (.call .readCount) [],
      .run 0 (.call .lower) [], .run 0 (.call .awaitRemoved) [],
      .run 1 (.worker (.resume ⟨fun _ => 0, none⟩)) [], .run 1 (.worker .exit) [0],
      .run 0 (.call .awaitRemoved) [], .run 0 (.call .finishStop) []]

theorem resizes_come_back_growAndJoin : ∃ c, threadManager.Run ResizesCleanly (fresh [1]) c ∧
    (0, Event.returned .addWorker) ∈ c.log ∧ (0, Event.returned .join) ∈ c.log ∧ CameBack c := by
  obtain ⟨c, run, alive, still, factory, back, added, joined⟩ := threadManager.exists_run
    ResizesCleanly (fresh [1])
    (fun c => c.shared.terminated = false ∧ (∀ t ∈ c.threads, t.still c.shared = true) ∧
      c.shared.threadFactory = true ∧ TasksReturn c ∧ (0, Event.returned .addWorker) ∈ c.log ∧
      (0, Event.returned .join) ∈ c.log) growAndJoin (by decide)
  have rests := resting_iff.mpr (.inr still)
  exact ⟨c, run, added, joined, resizes_come_back [1] c run rests alive factory back⟩

end Threads.Manager
