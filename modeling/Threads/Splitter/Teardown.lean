import Threads.Manager.Counting
import Threads.Splitter.Places

/-!
# Who destroys the scheduler

`~SplitterJobScheduler` stops the thread manager and waits for its workers. It is run by
whoever gives back the last reference, and a worker in `NotifyAllObservers` holds one.
-/

namespace Threads.Splitter

open Concurrency

/-- One for a client inside `AddSplitterJob`. -/
def Place.clientHolds : Place → Nat
  | .registering _ | .appending _ | .adding _ | .handed => 1
  | _ => 0

/-- One for a worker that holds the scheduler in `NotifyAllObservers`. -/
def Place.workerHolds : Place → Nat
  | .calling _ _ ob | .called _ _ ob _ => if ob = .scheduler then 1 else 0
  | _ => 0

/-- The references to the scheduler that clients have. -/
def clientHeld (c : Config JobScheduler Member JobEvent) : Nat :=
  c.shared.clientRefs .scheduler + total (atPlaces Place.clientHolds) c.threads

def Place.destroys : Place → Bool
  | .destroying _ => true
  | _ => false

/-- No worker counted in `worker_count_` runs the destructor, and none is left with the
last reference. -/
structure DestroyedByClient (c : Config JobScheduler Member JobEvent) : Prop where
  now : ∀ v ∈ c.threads, v.place.destroys = true → Manager.activated v.thread.worker = 0
  next : 0 < c.shared.useCount .scheduler → 0 < clientHeld c

/-- A client gives back the last reference that clients have only when no worker holds
one. -/
def OutlivesWorkers (c : Config JobScheduler Member JobEvent) : Move JobAct → Prop
  | .run _ (.drop .scheduler) _ => clientHeld c = 1 → c.shared.useCount .scheduler = 1
  | _ => True

instance (c : Config JobScheduler Member JobEvent) (mv : JobMove) :
    Decidable (OutlivesWorkers c mv) := by
  unfold OutlivesWorkers
  split <;> infer_instance

structure TeardownAccount (c : Config JobScheduler Member JobEvent) : Prop where
  fits : ∀ v ∈ c.threads, v.Fits
  refs : RefsCounted c
  absent : ∀ v ∈ c.threads, v.place.destroys = true → v.thread.worker = .absent
  last : 0 < c.shared.useCount .scheduler → 0 < clientHeld c

theorem TeardownAccount.destroyedByClient {c : Config JobScheduler Member JobEvent}
    (h : TeardownAccount c) : DestroyedByClient c where
  now v mem destroys := by rw [h.absent v mem destroys]; rfl
  next := h.last

theorem holds_scheduler (p : Place) : p.holds .scheduler = p.clientHolds + p.workerHolds := by
  cases p <;> simp [Place.holds, Place.clientHolds, Place.workerHolds]

theorem RefsCounted.scheduler {c : Config JobScheduler Member JobEvent} (h : RefsCounted c) :
    c.shared.useCount .scheduler =
      clientHeld c + total (atPlaces Place.workerHolds) c.threads := by
  have both : total (atPlaces (Place.holds .scheduler)) c.threads =
      total (atPlaces Place.clientHolds) c.threads +
        total (atPlaces Place.workerHolds) c.threads := by
    rw [← total_add]
    exact congrArg (total · c.threads) (funext fun v => holds_scheduler v.place)
  rw [h .scheduler, both]
  unfold clientHeld
  omega

theorem afterRelease_clientHolds (s : JobScheduler) (ob : Observer) (back : Back) :
    (afterRelease s ob back).clientHolds = 0 := by
  unfold afterRelease
  split
  · rfl
  · cases back <;> rfl

/-- The clients lose no reference, and without them no reference is made. -/
def KeepsClients (s : JobScheduler) (p : Place) (s' : JobScheduler) (p' : Place) : Prop :=
  s.clientRefs .scheduler + p.clientHolds ≤ s'.clientRefs .scheduler + p'.clientHolds ∧
    (0 < s'.useCount .scheduler → 0 < s.useCount .scheduler ∨ 0 < s'.clientRefs .scheduler)

/-- Only a client that drops its reference takes one away from the clients. -/
theorem JobStep.clients {s : JobScheduler} {p : Place} {a : JobAct} {o : JobEffect Place}
    (h : JobStep s p a o) (other : a ≠ .drop .scheduler) : KeepsClients s p o.shared o.self := by
  unfold KeepsClients
  cases h with
  | begins held =>
    simp only [JobScheduler.take_clientRefs, JobScheduler.take_useCount, Place.clientHolds, if_true]
    omega
  | counts =>
    simp only [JobScheduler.keep_clientRefs, JobScheduler.keep_useCount, Place.clientHolds, if_true]
    omega
  | @copies ob held =>
    simp only [JobScheduler.keep_clientRefs, JobScheduler.keep_useCount,
      JobScheduler.hold_useCount, JobScheduler.hold_clientRefs, Place.clientHolds]
    refine ⟨by omega, ?_⟩
    split <;> omega
  | @drops ob held =>
    have apart : Observer.scheduler ≠ ob := fun same => other (congrArg _ same.symm)
    dsimp only
    rw [afterRelease_clientHolds]
    simp only [JobScheduler.take_clientRefs, JobScheduler.take_useCount,
      JobScheduler.letGo_useCount, JobScheduler.letGo_clientRefs, if_neg apart, Place.clientHolds]
    omega
  | @locks job next ob there live =>
    refine ⟨Nat.le_refl _, fun some => ?_⟩
    rw [JobScheduler.hold_useCount] at some
    by_cases same : Observer.scheduler = ob
    · exact .inl (same ▸ live)
    · rw [if_neg same] at some
      exact .inl some
  | @releases job next ob raised =>
    dsimp only [releaseBlock]
    rw [afterRelease_clientHolds]
    refine ⟨Nat.le_refl _, fun some => ?_⟩
    rw [JobScheduler.letGo_useCount] at some
    exact .inl (Nat.lt_of_lt_of_le some (Nat.sub_le _ _))
  | _ => exact ⟨Nat.le_refl _, .inl⟩

theorem CallEnds.clients {s s' : JobScheduler} {o : Manager.Effect Manager.Call} {p p' : Place}
    (h : CallEnds s o p s' p') : KeepsClients s p s' p' := by
  unfold KeepsClients
  have returned (back : Back) : back.place.clientHolds = 0 := by cases back <;> rfl
  cases h with
  | makes =>
    simp only [JobScheduler.keep_clientRefs, JobScheduler.hold_clientRefs, Place.clientHolds,
      if_true]
    omega
  | refused =>
    simp only [JobScheduler.keep_clientRefs, JobScheduler.keep_useCount, Place.clientHolds, if_true]
    omega
  | stopped | stopThrows =>
    rw [returned]
    exact ⟨Nat.le_refl _, .inl⟩
  | _ => exact ⟨Nat.le_refl _, .inl⟩

theorem ManagerStep.clients {s : JobScheduler} {v : Member} {a : Manager.Act}
    {o : JobEffect Member} (h : ManagerStep s v a o) :
    KeepsClients s v.place o.shared o.self.place := by
  cases h with
  | works place | finishes place | initializes place =>
    rw [place]
    exact ⟨Nat.le_add_right _ _, .inl⟩
  | calls place makesCalls call own step ends => exact ends.clients

/-! ## The destructor -/

theorem CallEnds.destroys {s s' : JobScheduler} {o : Manager.Effect Manager.Call} {p p' : Place}
    (h : CallEnds s o p s' p') (destroys : p'.destroys = true) : p.destroys = true := by
  cases h with
  | goesOn => exact destroys
  | @stopped back | @stopThrows back => rfl
  | _ => cases destroys

/-- A block of the thread manager begins no destructor. -/
theorem ManagerStep.destroys {s : JobScheduler} {v : Member} {a : Manager.Act}
    {o : JobEffect Member} (h : ManagerStep s v a o) (destroys : o.self.place.destroys = true) :
    v.place.destroys = true ∧ o.self.thread.worker = v.thread.worker := by
  cases h with
  | @works a w o =>
    dsimp only at destroys
    generalize o.self = w' at destroys
    cases w' <;> cases destroys
  | finishes | initializes => cases destroys
  | calls place makesCalls call own step ends => exact ⟨ends.destroys destroys, rfl⟩

/-- The destructor is begun by the last release. -/
theorem JobStep.destroys {s : JobScheduler} {p : Place} {a : JobAct} {o : JobEffect Place}
    (h : JobStep s p a o) (destroys : o.self.destroys = true) :
    s.useCount .scheduler = 1 ∧ (p = .outside ∨ p.workerHolds = 1) := by
  have last {ob : Observer} {back : Back} (destroys : (afterRelease s ob back).destroys = true) :
      ob = .scheduler ∧ s.useCount ob = 1 := by
    unfold afterRelease at destroys
    split at destroys
    · assumption
    · cases back <;> cases destroys
  cases h with
  | drops =>
    obtain ⟨rfl, one⟩ := last destroys
    exact ⟨one, .inl rfl⟩
  | releases =>
    obtain ⟨rfl, one⟩ := last destroys
    exact ⟨one, .inr rfl⟩
  | _ => cases destroys

section Step

variable {c c' : Config JobScheduler Member JobEvent} {mv : Move JobAct}

theorem clientHeld_manager {i : Nat} {v : Member} {a : Manager.Act} {o : JobEffect Member}
    {ts : List Member} {log : List (Nat × JobEvent)} (here : c.threads[i]? = some v)
    (step : ManagerStep c.shared v a o) (woken : jobScheduler.Woken c.threads ts) :
    clientHeld c ≤ clientHeld ⟨o.shared, ts.set i o.self ++ o.spawned, log⟩ := by
  have moved := total_manager (f := Place.clientHolds) rfl woken here step
  have kept := step.clients.1
  unfold clientHeld
  dsimp only
  omega

theorem clientHeld_own {i : Nat} {v : Member} {o : JobEffect Place} (log : List (Nat × JobEvent))
    (here : c.threads[i]? = some v) :
    clientHeld ⟨o.shared, c.threads.set i (v.atPlace o.self), log⟩ +
        c.shared.clientRefs .scheduler + v.place.clientHolds =
      clientHeld c + o.shared.clientRefs .scheduler + o.self.clientHolds := by
  have moved := total_own Place.clientHolds here o.self
  unfold clientHeld
  dsimp only
  omega

theorem clientHeld_drop {i : Nat} {v : Member} (log : List (Nat × JobEvent))
    (held : 0 < c.shared.clientRefs .scheduler) (here : c.threads[i]? = some v)
    (outside : v.place = .outside) :
    clientHeld ⟨(c.shared.letGo .scheduler).take .scheduler,
      c.threads.set i (v.atPlace (afterRelease c.shared .scheduler .client)), log⟩ + 1 =
      clientHeld c := by
  have moved := total_own Place.clientHolds here (afterRelease c.shared .scheduler .client)
  rw [afterRelease_clientHolds, outside] at moved
  unfold clientHeld
  simp only [JobScheduler.take_clientRefs, JobScheduler.letGo_clientRefs, Place.clientHolds,
    if_true] at moved ⊢
  omega

theorem letGo_self (s : JobScheduler) (o : Observer) :
    (s.letGo o).useCount o + 1 = max 1 (s.useCount o) := by
  rw [JobScheduler.letGo_useCount, if_pos rfl]
  omega

theorem teardownAccount_step (h : TeardownAccount c) (ok : OutlivesWorkers c mv)
    (change : JobChange c mv c') : TeardownAccount c' := by
  have fits := fits_step h.fits change
  have refs := refsCounted_step h.refs change
  refine ⟨fits, refs, ?_, ?_⟩
  · cases change with
    | @spurious i v here waits =>
      intro u mem destroys
      rcases List.mem_or_eq_of_mem_set mem with old | rfl
      · exact h.absent u old destroys
      · have absent := h.absent v (List.mem_of_getElem? here) destroys
        show v.thread.worker.wake = .absent
        rw [absent]
        rfl
    | @manager i a cs v o ts here step woken =>
      apply jobScheduler.forall_run (fun u => u.place.destroys = true → u.thread.worker = .absent)
        ?_ woken h.absent
      · intro destroys
        obtain ⟨before, same⟩ := step.destroys destroys
        exact same.trans (h.absent v (List.mem_of_getElem? here) before)
      · intro u mem destroys
        obtain ⟨ref, rfl⟩ := step.spawned u mem
        cases destroys
      · intro u _ absent destroys
        show u.thread.worker.wake = .absent
        rw [absent destroys]
        rfl
    | @own i a cs v o here client step =>
      intro u mem destroys
      rcases List.mem_or_eq_of_mem_set mem with old | rfl
      · exact h.absent u old destroys
      · obtain ⟨one, outside | holds⟩ := step.destroys destroys
        · exact client outside
        · have clients := h.last (one ▸ Nat.one_pos)
          have counted := h.refs.scheduler
          have present := le_total_of_getElem? (atPlaces Place.workerHolds) here
          rw [atPlaces, holds] at present
          omega
  · intro some
    cases change with
    | spurious here waits =>
      have same := jobScheduler.total_spurious (stable_atPlaces Place.clientHolds) here waits
      have before := h.last some
      unfold clientHeld at before ⊢
      rwa [← same] at before
    | @manager i a cs v o ts here step woken =>
      rcases step.clients.2 some with live | kept
      · exact Nat.lt_of_lt_of_le (h.last live) (clientHeld_manager here step woken)
      · exact Nat.lt_of_lt_of_le kept (Nat.le_add_right _ _)
    | @own i a cs v o here client step =>
      by_cases drops : a = .drop .scheduler
      · subst drops
        generalize place : v.place = p at step
        cases step with
        | drops held =>
          have alone : clientHeld c = 1 → c.shared.useCount .scheduler = 1 := ok
          have fewer := letGo_self c.shared .scheduler
          have one : 0 < (c.shared.letGo .scheduler).useCount .scheduler := some
          have before := h.last (by omega)
          have moved := clientHeld_drop (c.log ++ []) held here place
          simp only [List.map_nil]
          omega
      · have moved := clientHeld_own (o := o) (c.log ++ o.events.map (Prod.mk i)) here
        obtain ⟨kept, revived⟩ := step.clients drops
        rcases revived some with live | held
        · have before := h.last live
          omega
        · exact Nat.lt_of_lt_of_le held (Nat.le_add_right _ _)

/-- The last reference of the clients goes, and one of a worker is left. -/
theorem worker_left_with_last (h : TeardownAccount c) (bad : ¬ OutlivesWorkers c mv)
    (change : JobChange c mv c') : ¬ DestroyedByClient c' := by
  intro tornDown
  have last := tornDown.next
  unfold OutlivesWorkers at bad
  split at bad
  · simp only [Classical.not_imp] at bad
    obtain ⟨one, more⟩ := bad
    cases change with
    | @own _ _ _ v o here client step =>
      generalize place : v.place = p at step
      cases step with
      | drops held =>
        have fewer := letGo_self c.shared .scheduler
        have counted := h.refs.scheduler
        have moved := clientHeld_drop (c.log ++ []) held here place
        have left : 0 < (c.shared.letGo .scheduler).useCount .scheduler := by omega
        have kept := last left
        simp only [List.map_nil] at kept
        omega
  · exact bad trivial

end Step

theorem teardownAccount_newScheduler (workers pendingMax : Nat) (others : Nat → List Nat)
    (refs : Nat → Nat) (client : Nat) (clients : List Nat) :
    TeardownAccount (newScheduler workers pendingMax others refs client clients) where
  fits := fits_newScheduler workers pendingMax others refs client clients
  refs := refsCounted_newScheduler workers pendingMax others refs client clients
  absent v mem destroys := by
    rcases List.mem_cons.mp mem with rfl | mem
    · cases destroys
    · obtain ⟨t, -, rfl⟩ := List.mem_map.mp mem
      cases destroys
  last some := absurd some (Nat.lt_irrefl 0)

/-- Along a schedule the scheduler is never left to a worker exactly if no client gives
back the last reference of the clients while a worker holds one. -/
theorem destroyed_by_client_iff (workers pendingMax : Nat) (others : Nat → List Nat)
    (refs : Nat → Nat) (client : Nat) (clients : List Nat) (mvs : List (Move JobAct)) :
    jobScheduler.Throughout DestroyedByClient
        (newScheduler workers pendingMax others refs client clients) mvs ↔
      jobScheduler.EachStep OutlivesWorkers
        (newScheduler workers pendingMax others refs client clients) mvs :=
  Program.throughout_iff TeardownAccount.destroyedByClient
    (fun h ok step => teardownAccount_step h ok (jobChange_of_step h.fits step))
    (fun h bad step => worker_left_with_last h bad (jobChange_of_step h.fits step))
    (teardownAccount_newScheduler workers pendingMax others refs client clients) mvs

/-- The client drops its reference while the worker is inside `OnCompletedJob`. -/
def dropInside : List (Move JobAct) :=
  makeScheduler 1 ++ addAndBegin 1 5 ++
    [.run 1 (.split (.returned true)) [], .run 1 .lock [], .run 0 (.drop .scheduler) [],
      .run 1 .onCompletedJob [], .run 1 .release [], byCaller 1 (.stop false),
      byCaller 1 .lockStop, byCaller 1 .readCount, byCaller 1 .lower, byCaller 1 .awaitRemoved]

/-- The only worker runs the destructor and waits for itself to leave. -/
theorem worker_waits_for_itself : ∃ c,
    jobScheduler.Reach (newScheduler 1 0 (fun _ => []) (fun _ => 0) 1 []) c ∧
    ¬ DestroyedByClient c ∧ c.shared.impl.workerCount = 1 ∧ c.shared.impl.workerMaxCount = 0 ∧
    ∃ v ∈ c.threads[1]?, v.place = .destroying (.notify 5 1) ∧
      v.thread.call = .removedParked (.stopImpl false) ∧
      Manager.activated v.thread.worker = 1 := by
  obtain ⟨c, reach, count, limit, v, there, place, call, counted⟩ := jobScheduler.exists_reach
    (newScheduler 1 0 (fun _ => []) (fun _ => 0) 1 [])
    (fun c => c.shared.impl.workerCount = 1 ∧ c.shared.impl.workerMaxCount = 0 ∧
      ∃ v ∈ c.threads[1]?, v.place = .destroying (.notify 5 1) ∧
        v.thread.call = .removedParked (.stopImpl false) ∧
        Manager.activated v.thread.worker = 1)
    dropInside (by decide)
  refine ⟨c, reach, fun client => ?_, count, limit, v, there, place, call, counted⟩
  have none := client.now v (List.mem_of_getElem? there) (by rw [place]; rfl)
  rw [counted] at none
  cases none

end Threads.Splitter
