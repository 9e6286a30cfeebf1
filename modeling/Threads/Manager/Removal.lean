import Threads.Manager.Wakeups

/-!
# How many workers a `RemoveWorker` removes

A worker decides to leave in one critical section and is counted out in another.
Between the two every other worker still finds the count above the limit.
-/

namespace Threads.Manager

open Concurrency

/-- The number of times a worker has found itself inactive and left its loop. -/
def departures (log : List (Nat × Event)) : Nat := log.countP fun e => e.2 == .left

/-- A place in `Worker::Run` after the entry block of an accepted worker. -/
def Worker.pooled : Worker → Bool
  | .entry | .announce | .leaving false => false
  | _ => true

/-- One for a `RemoveWorker` call that has still to lower the limit. -/
def unlowered : Call → Nat
  | .removeWorker _ _ => 1
  | _ => 0

instance : SteadyCall unlowered := ⟨fun c => by cases c <;> rfl⟩

/-- `n` live workers, parked or busy, in a started manager, and one client about to
execute `RemoveWorker(k)`. -/
structure Pool (n k : Nat) (c : Config Impl Thread Event) : Prop where
  enough : k ≤ n
  alive : c.shared.terminated = false
  started : c.shared.state = .started
  count : c.shared.workerCount = n
  limit : c.shared.workerMaxCount = n
  idle : c.shared.idleCount = total (onWorker idle) c.threads
  size : total (onWorker inLoop) c.threads = n
  workers : ∀ t ∈ c.threads, t.worker.pooled = true ∧ leaving t.worker = 0 ∧ t.worker ≠ .escaped
  calls : ∀ t ∈ c.threads, t.call = .none ∨ t.worker = .absent ∧ t.call = .removeWorker k .client
  one : total (onCall unlowered) c.threads = 1

instance (n k : Nat) (c : Config Impl Thread Event) : Decidable (Pool n k c) :=
  decidable_of_iff (k ≤ n ∧ c.shared.terminated = false ∧ c.shared.state = .started ∧
    c.shared.workerCount = n ∧ c.shared.workerMaxCount = n ∧
    c.shared.idleCount = total (onWorker idle) c.threads ∧
    total (onWorker inLoop) c.threads = n ∧
    (∀ t ∈ c.threads, t.worker.pooled = true ∧ leaving t.worker = 0 ∧ t.worker ≠ .escaped) ∧
    (∀ t ∈ c.threads, t.call = .none ∨ t.worker = .absent ∧ t.call = .removeWorker k .client) ∧
    total (onCall unlowered) c.threads = 1)
    ⟨fun ⟨a, b, d, e, f, g, h, i, j, l⟩ => ⟨a, b, d, e, f, g, h, i, j, l⟩,
      fun ⟨a, b, d, e, f, g, h, i, j, l⟩ => ⟨a, b, d, e, f, g, h, i, j, l⟩⟩

/-- The two blocks of a `RemoveWorker` call under way. -/
def CallAct.removes : CallAct → Bool
  | .lower | .awaitRemoved => true
  | _ => false

/-- The steps of the workers and of `RemoveWorker`. -/
def Removes : Move Act → Prop
  | .run _ (.call a) _ => a.removes = true
  | _ => True

instance : DecidablePred Removes
  | .spurious _ | .run _ (.worker _) _ => isTrue trivial
  | .run _ (.call a) _ => inferInstanceAs (Decidable (a.removes = true))

/-- No worker in its loop is about to leave it: one that tests would stay, or they are all parked
and nobody has woken them. -/
def NobodyLeaves (c : Config Impl Thread Event) : Prop :=
  c.shared.isActive = true ∨ ∀ t ∈ c.threads, inLoop t.worker = 1 → t.worker = .parked

/-- At most `k` workers have left their loop; the count has not fallen below the new
limit; and once the limit is lowered, nobody is on the way out and nobody is about to be,
exactly `n - k` workers are in their loop and the wait condition is met. -/
structure RemovesExactly (n k : Nat) (c₀ c : Config Impl Thread Event) : Prop where
  departed : departures c.log ≤ departures c₀.log + k
  remaining : n - k ≤ c.shared.workerCount
  final : c.shared.workerMaxCount = n - k → total (onWorker leaving) c.threads = 0 →
    NobodyLeaves c → total (onWorker inLoop) c.threads = n - k ∧
      c.shared.workerCount = c.shared.workerMaxCount

/-! ## Runs from a pool -/

/-- A call in a run from a pool. -/
def Call.removal (k : Nat) : Call → Prop
  | .none => True
  | .removeWorker value .client => value = k
  | .awaitRemoved .client | .removedParked .client => True
  | _ => False

structure Shrinking (n k departed : Nat) (c : Config Impl Thread Event) : Prop where
  counts : CountsActivated c
  started : c.shared.state = .started
  workers : ∀ t ∈ c.threads, t.worker.pooled = true
  calls : ∀ t ∈ c.threads, t.call.removal k
  one : total (onCall unlowered) c.threads ≤ 1
  most : c.shared.workerCount ≤ n
  left : total (onWorker inLoop) c.threads + departures c.log = n + departed
  limit : c.shared.workerMaxCount = n ∨
    c.shared.workerMaxCount = n - k ∧ total (onCall unlowered) c.threads = 0
  kept : k = 0 → departures c.log = departed

/-- `idle_count_` counts the workers that wait, and none of them is parked while the pool is above
its limit: a worker parks only within the limit, and the lowering wakes them all. -/
structure Rested (c : Config Impl Thread Event) : Prop where
  idle : c.shared.idleCount = total (onWorker idle) c.threads
  awake : 0 < parked c.threads → c.shared.workerCount ≤ c.shared.workerMaxCount

section Step

variable {s : Impl} {ref : ThreadRef} {w : Worker} {a : WorkerAct} {o : Effect Worker}

theorem pooled_wake (w : Worker) : w.wake.pooled = w.pooled := by cases w <;> rfl

theorem entering_of_pooled (h : w.pooled = true) : entering w = 0 := by
  cases w with
  | entry => cases h
  | _ => rfl

theorem removal_wake {k : Nat} {c : Call} (h : c.removal k) : c.wake.removal k := by
  cases c with
  | removedParked caller => cases caller <;> exact h
  | _ => exact h

theorem startWaits_of_removal {k : Nat} {c : Call} (h : c.removal k) : startWaits c = 0 := by
  cases c with
  | startParked | startWoken => exact h.elim
  | _ => rfl

theorem departures_append (log : List (Nat × Event)) (i : Nat) (es : List Event) :
    departures (log ++ es.map (Prod.mk i)) = departures log + es.count .left := by
  simp [departures, List.countP_append, List.countP_map, List.count, Function.comp_def]

theorem departures_expiry (s : Impl) (env : Surroundings) :
    (s.expiryEvents env).count .left = 0 := by
  apply List.count_eq_zero.mpr
  intro left
  rcases Impl.mem_expiryEvents left with ⟨t, eq⟩ | ⟨t, callback, eq⟩ <;> cases eq

theorem departures_workBlock (s : Impl) (env : Surroundings) :
    (workBlock s env).events.count .left = 0 := by
  unfold workBlock
  dsimp only
  split
  · exact departures_expiry s env
  · split
    · exact departures_expiry s env
    · rw [List.count_append, departures_expiry]
      rfl

theorem WorkerStep.pooled (h : WorkerStep s ref w a o) (before : w.pooled = true) :
    o.self.pooled = true := by
  cases h with
  | enters | refused | announced => cases before
  | works | wakesAndWorks => rcases workBlock_self _ _ with h | ⟨t, h⟩ | h <;> rw [h] <;> rfl
  | _ => rfl

/-- A worker leaves its loop with a departure. -/
theorem WorkerStep.departs (h : WorkerStep s ref w a o) (before : w.pooled = true) :
    Manager.inLoop o.self + o.events.count .left = Manager.inLoop w := by
  cases h with
  | enters | refused | announced => cases before
  | works | wakesAndWorks => rw [workBlock_inLoop, departures_workBlock]; rfl
  | exited => rfl
  | ran | done => simp [Manager.inLoop]
  | _ => rfl

theorem WorkerStep.departs_inactive (h : WorkerStep s ref w a o) (before : w.pooled = true)
    (left : o.events.count .left ≠ 0) : s.isActive = false := by
  have departs := h.departs before
  rcases h.inLoop with stays | inactive
  · omega
  · exact inactive

end Step

section Run

variable {n k departed : Nat} {c c' : Config Impl Thread Event} {mv : Move Act}

theorem Shrinking.accepted (h : Shrinking n k departed c) :
    total (onWorker refused) c.threads = 0 := by
  apply total_eq_zero.mpr
  intro t ht
  have pooled := h.workers t ht
  unfold onWorker
  generalize t.worker = w at pooled
  cases w with
  | leaving activated => cases activated <;> first | rfl | cases pooled
  | _ => rfl

theorem shrinking_worker (h : Shrinking n k departed c) {i : Nat} {cs : List Nat} {t : Thread}
    {ts : List Thread} {a : WorkerAct} {o : Effect Worker} (here : c.threads[i]? = some t)
    (idle : t.call = .none) (step : WorkerStep c.shared t.ref t.worker a o)
    (delivered : threadManager.deliver o.signals cs c.threads = some ts)
    (counts : CountsActivated ⟨o.shared, ts.set i (t.withWorker idle o.self),
      c.log ++ o.events.map (Prod.mk i)⟩) :
    Shrinking n k departed ⟨o.shared, ts.set i (t.withWorker idle o.self),
      c.log ++ o.events.map (Prod.mk i)⟩ := by
  have woken := threadManager.deliver_woken delivered
  have mem := List.mem_of_getElem? here
  have pooled := h.workers t mem
  have room := step.room (exit_positive h.accepted h.counts here step)
  have outside := entering_of_pooled pooled
  have limit := step.workerMaxCount
  have departs := step.departs pooled
  have looping := total_worker inLoop woken here idle o.self
  have most := h.most
  refine ⟨counts, step.state.trans h.started, ?_, ?_, ?_, ?_, ?_, ?_, ?_⟩
  · have all := threadManager.forall_run (fun t => t.worker.pooled = true)
      (fun t _ before => (pooled_wake t.worker).trans before) woken h.workers
      (t.withWorker idle o.self) (step.pooled pooled) [] (by simp) i
    simpa using all
  · have all := threadManager.forall_run (fun t => t.call.removal k)
      (fun _ _ => removal_wake) woken h.calls (t.withWorker idle o.self) (h.calls t mem) []
      (by simp) i
    simpa using all
  · dsimp only
    rw [total_worker_call unlowered woken here idle]
    exact h.one
  · dsimp only
    omega
  · dsimp only
    have left := h.left
    rw [departures_append]
    omega
  · dsimp only
    rw [total_worker_call unlowered woken here idle, limit]
    exact h.limit
  · intro zero
    have kept := h.kept zero
    dsimp only
    rw [departures_append, kept]
    by_contra some
    have inactive := step.departs_inactive pooled (by omega)
    rw [Impl.not_isActive_iff] at inactive
    rcases h.limit with limit | ⟨limit, -⟩ <;> omega

theorem shrinking_call (h : Shrinking n k departed c) {i : Nat} {cs : List Nat} {t : Thread}
    {ts : List Thread} {a : CallAct} {o : Effect Call} (here : c.threads[i]? = some t)
    (makesCalls : t.worker.makesCalls = true) (step : CallStep c.shared t.ref.id t.call a o)
    (delivered : threadManager.deliver o.signals cs c.threads = some ts)
    (ok : Removes (.run i (.call a) cs))
    (counts : CountsActivated ⟨o.shared, ts.set i (t.withCall makesCalls o.self) ++ o.spawned,
      c.log ++ o.events.map (Prod.mk i)⟩) :
    Shrinking n k departed ⟨o.shared, ts.set i (t.withCall makesCalls o.self) ++ o.spawned,
      c.log ++ o.events.map (Prod.mk i)⟩ := by
  have woken := threadManager.deliver_woken delivered
  have mem := List.mem_of_getElem? here
  have call := h.calls t mem
  have own := le_total_of_getElem? (onCall unlowered) here
  have moved := step.moves_calls unlowered rfl woken here makesCalls
  have looping := step.keeps_workers inLoop rfl woken here makesCalls
  -- what the two blocks of `RemoveWorker` can do
  have effect : o.shared.state = c.shared.state ∧ o.shared.workerCount = c.shared.workerCount ∧
      o.spawned = [] ∧ o.self.removal k ∧ o.events.count .left = 0 ∧
      (o.shared.workerMaxCount = c.shared.workerMaxCount ∧ unlowered o.self ≤ unlowered t.call ∨
        o.shared.workerMaxCount = c.shared.workerMaxCount - k ∧ unlowered t.call = 1 ∧
          unlowered o.self = 0) := by
    generalize t.call = d at step call
    cases step with
    | lowerFails => exact ⟨rfl, rfl, rfl, trivial, rfl, .inl ⟨rfl, Nat.zero_le _⟩⟩
    | @lowers value caller =>
      cases caller with
      | client =>
        simp only [Call.removal] at call
        subst call
        exact ⟨rfl, rfl, rfl, trivial, rfl, .inr ⟨rfl, rfl, rfl⟩⟩
      | stopImpl => exact call.elim
    | @removedParks caller =>
      cases caller with
      | client => exact ⟨rfl, rfl, rfl, trivial, rfl, .inl ⟨rfl, Nat.le_refl _⟩⟩
      | stopImpl => exact call.elim
    | @removed caller =>
      cases caller with
      | client => exact ⟨rfl, rfl, rfl, trivial, rfl, .inl ⟨rfl, Nat.le_refl _⟩⟩
      | stopImpl => exact call.elim
    | _ => cases ok
  obtain ⟨state, count, spawned, removal, none, limit⟩ := effect
  have most := h.most
  have one := h.one
  unfold onCall at own
  refine ⟨counts, state.trans h.started, ?_, ?_, ?_, ?_, ?_, ?_, ?_⟩
  · refine threadManager.forall_run (fun t => t.worker.pooled = true)
      (fun t _ before => (pooled_wake t.worker).trans before) woken h.workers
      (t.withCall makesCalls o.self) (h.workers t mem) o.spawned ?_ i
    simp [spawned]
  · refine threadManager.forall_run (fun t => t.call.removal k) (fun _ _ => removal_wake) woken
      h.calls (t.withCall makesCalls o.self) removal o.spawned ?_ i
    simp [spawned]
  · dsimp only
    rcases limit with ⟨-, fewer⟩ | ⟨-, before, after⟩ <;> omega
  · dsimp only
    omega
  · dsimp only
    have left := h.left
    rw [departures_append, none]
    omega
  · dsimp only
    rcases limit with ⟨same, fewer⟩ | ⟨lowered, before, after⟩
    · rcases h.limit with limit | ⟨limit, zero⟩
      · left
        omega
      · right
        omega
    · rcases h.limit with limit | ⟨limit, zero⟩
      · right
        omega
      · omega
  · intro zero
    dsimp only
    rw [departures_append, none, h.kept zero, Nat.add_zero]

theorem shrinking_step (h : Shrinking n k departed c) (ok : Removes mv) (change : Change c mv c') :
    Shrinking n k departed c' := by
  have counts := countsActivated_step h.counts (exitsActivated_of_accepted h.accepted mv) change
  cases change with
  | @spurious i t here waits =>
    have mem := List.mem_of_getElem? here
    have calls := total_call_spurious unlowered here waits
    have workers := total_worker_spurious inLoop here waits
    refine ⟨counts, h.started, fun u hu => ?_, fun u hu => ?_, calls.symm ▸ h.one, h.most,
      workers.symm ▸ h.left, calls.symm ▸ h.limit, h.kept⟩
    · rcases List.mem_or_eq_of_mem_set hu with hu | rfl
      · exact h.workers u hu
      · exact (pooled_wake t.worker).trans (h.workers t mem)
    · rcases List.mem_or_eq_of_mem_set hu with hu | rfl
      · exact h.calls u hu
      · exact removal_wake (h.calls t mem)
  | worker _ here idle place step delivered =>
    subst place
    exact shrinking_worker h here idle step delivered counts
  | call _ here makesCalls place step delivered =>
    subst place
    exact shrinking_call h here makesCalls step delivered ok counts

/-! ## Who is parked while the limit is lowered -/

theorem Shrinking.noStart (h : Shrinking n k departed c) :
    total (onCall startWaits) c.threads = 0 :=
  total_eq_zero.mpr fun t mem => startWaits_of_removal (h.calls t mem)

theorem Rested.counted (h : Rested c) (shrinking : Shrinking n k departed c) :
    parked c.threads ≤ c.shared.idleCount := by
  have asleep := parked_le c.threads
  have noStart := shrinking.noStart
  have idle := h.idle
  omega

theorem rested_worker (h : Rested c) (shrinking : Shrinking n k departed c) {i : Nat}
    {cs : List Nat} {t : Thread} {ts : List Thread} {a : WorkerAct} {o : Effect Worker}
    (here : c.threads[i]? = some t) (idle : t.call = .none)
    (step : WorkerStep c.shared t.ref t.worker a o)
    (delivered : threadManager.deliver o.signals cs c.threads = some ts) :
    Rested ⟨o.shared, ts.set i (t.withWorker idle o.self), c.log ++ o.events.map (Prod.mk i)⟩ := by
  have woken := threadManager.deliver_woken delivered
  have counted := total_worker Manager.idle woken here idle o.self
  have own : Manager.idle t.worker ≤ total (onWorker Manager.idle) c.threads :=
    le_total_of_getElem? (onWorker Manager.idle) here
  have was := h.idle
  constructor
  · have now := step.idle (was ▸ own)
    dsimp only
    omega
  · intro some
    have outside := entering_of_pooled (shrinking.workers t (List.mem_of_getElem? here))
    have room := step.room (exit_positive shrinking.accepted shrinking.counts here step)
    have limit := step.workerMaxCount
    have parks := parked_worker step delivered here idle rfl
    have within : c.shared.workerCount ≤ c.shared.workerMaxCount := by
      by_cases self : o.self = .parked
      · exact (step.of_parked self).1
      · rw [if_neg self, Nat.add_zero] at parks
        exact h.awake (parks ▸ some)
    dsimp only
    omega

theorem rested_call (h : Rested c) (shrinking : Shrinking n k departed c) {i : Nat}
    {cs : List Nat} {t : Thread} {ts : List Thread} {a : CallAct} {o : Effect Call}
    (here : c.threads[i]? = some t) (makesCalls : t.worker.makesCalls = true)
    (step : CallStep c.shared t.ref.id t.call a o)
    (delivered : threadManager.deliver o.signals cs c.threads = some ts)
    (ok : Removes (.run i (.call a) cs)) :
    Rested ⟨o.shared, ts.set i (t.withCall makesCalls o.self) ++ o.spawned,
      c.log ++ o.events.map (Prod.mk i)⟩ := by
  have woken := threadManager.deliver_woken delivered
  have before := startWaits_of_removal (shrinking.calls t (List.mem_of_getElem? here))
  have counted := h.counted shrinking
  have workers := step.keeps_workers Manager.idle rfl woken here makesCalls
  have counts := step.counts
  -- a block of `RemoveWorker` wakes everybody or changes no limit
  have effect : startWaits o.self = 0 ∧
      (Program.afterSignals .monitor o.signals (parked c.threads) = 0 ∨
        Program.afterSignals .monitor o.signals (parked c.threads) = parked c.threads ∧
          o.shared.workerMaxCount = c.shared.workerMaxCount) := by
    generalize t.call = d at step
    cases step with
    | lowerFails => exact ⟨rfl, .inr ⟨rfl, rfl⟩⟩
    | lowers => exact ⟨rfl, .inl (afterSignals_lower counted)⟩
    | removedParks => exact ⟨rfl, .inr ⟨rfl, rfl⟩⟩
    | @removed caller => cases caller <;> exact ⟨rfl, .inr ⟨rfl, rfl⟩⟩
    | _ => cases ok
  obtain ⟨after, signals⟩ := effect
  have sleepers := parked_call step delivered here makesCalls rfl before after
  constructor
  · have was := h.idle
    dsimp only
    omega
  · intro some
    dsimp only at some ⊢
    rw [sleepers] at some
    rcases signals with nobody | ⟨same, limit⟩
    · omega
    · have within := h.awake (same ▸ some)
      omega

theorem rested_step (h : Rested c) (shrinking : Shrinking n k departed c) (ok : Removes mv)
    (change : Change c mv c') : Rested c' := by
  cases change with
  | @spurious i t here waits =>
    have fewer : parked (c.threads.set i t.wake) ≤ parked c.threads :=
      threadManager.total_parkedIn_wake_le .monitor here
    refine ⟨?_, fun some => h.awake (Nat.lt_of_lt_of_le some fewer)⟩
    exact h.idle.trans (total_worker_spurious idle here waits).symm
  | worker _ here idle place step delivered =>
    subst place
    exact rested_worker h shrinking here idle step delivered
  | call _ here makesCalls place step delivered =>
    subst place
    exact rested_call h shrinking here makesCalls step delivered ok

theorem Pool.rested (h : Pool n k c) : Rested c :=
  ⟨h.idle, fun _ => Nat.le_of_eq (h.count.trans h.limit.symm)⟩

theorem Pool.shrinking (h : Pool n k c) : Shrinking n k (departures c.log) c where
  counts := by
    have activated : total (onWorker activated) c.threads = total (onWorker inLoop) c.threads := by
      refine total_congr (List.forall₂_same.mpr fun t ht => ?_)
      obtain ⟨pooled, stays, -⟩ := h.workers t ht
      unfold onWorker
      generalize t.worker = w at pooled stays
      cases w with
      | leaving => cases stays
      | entry | announce => cases pooled
      | _ => rfl
    unfold CountsActivated
    rw [activated, h.size, h.count]
  started := h.started
  workers t ht := (h.workers t ht).1
  calls t ht := by
    rcases h.calls t ht with none | ⟨-, removes⟩
    · rw [none]
      trivial
    · rw [removes]
      rfl
  one := Nat.le_of_eq h.one
  most := Nat.le_of_eq h.count
  left := by rw [h.size]
  limit := .inl h.limit
  kept _ := rfl

theorem Shrinking.count (h : Shrinking n k departed c) :
    c.shared.workerCount =
      total (onWorker inLoop) c.threads + total (onWorker leaving) c.threads := by
  rw [h.counts, ← total_add]
  refine total_congr (List.forall₂_same.mpr fun t ht => ?_)
  have pooled := h.workers t ht
  unfold onWorker
  generalize t.worker = w at pooled
  cases w with
  | leaving activated => cases activated <;> first | rfl | cases pooled
  | entry | announce => cases pooled
  | _ => rfl

/-- While the pool is above its limit, a worker in its loop is on its way to a test. -/
theorem Rested.empty (h : Rested c) (started : c.shared.state = .started)
    (nobody : NobodyLeaves c) (above : c.shared.workerMaxCount < c.shared.workerCount) :
    total (onWorker inLoop) c.threads = 0 := by
  rcases nobody with active | asleep
  · rw [Impl.isActive_iff, started] at active
    rcases active with within | ⟨joining, -⟩
    · omega
    · cases joining
  · have none : parked c.threads = 0 := by
      have awake := h.awake
      omega
    refine Nat.eq_zero_of_le_zero (none ▸ total_mono fun t mem => ?_)
    rcases inLoop_eq t.worker with outside | inside
    · exact Nat.le_trans (Nat.le_of_eq outside) (Nat.zero_le _)
    · rw [parkedIn_of_parked (asleep t mem inside)]
      exact Nat.le_of_eq inside

/-- Nothing goes wrong when no worker or every worker is removed. -/
theorem Shrinking.exact {c₀ : Config Impl Thread Event} (h : Shrinking n k (departures c₀.log) c)
    (rested : Rested c) (ends : k = 0 ∨ k = n) : RemovesExactly n k c₀ c := by
  have count := h.count
  have left := h.left
  have most := h.most
  rcases ends with rfl | rfl
  · have kept := h.kept rfl
    refine ⟨by omega, by omega, fun limit _ _ => ⟨by omega, by omega⟩⟩
  · refine ⟨by omega, by omega, ?_⟩
    intro limit _ nobody
    have empty := rested.empty h.started nobody
    constructor <;> omega

/-! ## A run that removes too many -/

/-- Every worker that tests finds itself inactive, and no worker is parked. -/
structure Failing (c : Config Impl Thread Event) : Prop where
  alive : c.shared.terminated = false
  started : c.shared.state = .started
  excess : c.shared.workerMaxCount < c.shared.workerCount
  workers : ∀ t ∈ c.threads, inLoop t.worker = 1 →
    t.call = .none ∧ t.worker ≠ .parked ∧ t.worker ≠ .escaped

theorem Failing.inactive (h : Failing c) : c.shared.isActive = false := by
  rw [Impl.not_isActive_iff, h.started]
  exact ⟨h.excess, nofun⟩

/-- A block of a worker that signals nobody can always be run. -/
theorem run_worker {i : Nat} {t : Thread} {a : WorkerAct} {o : Effect Worker}
    (alive : c.shared.terminated = false) (here : c.threads[i]? = some t) (idle : t.call = .none)
    (fires : workerBlock c.shared t.ref t.worker a = some o) (silent : o.signals = [])
    (childless : o.spawned = []) :
    threadManager.Run (fun _ mv => Removes mv) c
      ⟨o.shared, c.threads.set i (t.withWorker idle o.self),
        c.log ++ o.events.map (Prod.mk i)⟩ := by
  have ok : Removes (.run i (.worker a) []) := trivial
  exact .tail .refl ok (step_worker alive here idle fires silent childless)

/-- The next configuration when a worker in its loop goes on to `w`. -/
theorem Failing.moved (h : Failing c) {i : Nat} {t : Thread} (idle : t.call = .none) {w : Worker}
    {s : Impl} {log : List (Nat × Event)} (alive : s.terminated = false)
    (state : s.state = c.shared.state) (count : s.workerCount = c.shared.workerCount)
    (limit : s.workerMaxCount = c.shared.workerMaxCount) (place : w ≠ .parked ∧ w ≠ .escaped) :
    Failing ⟨s, c.threads.set i (t.withWorker idle w), log⟩ := by
  refine ⟨alive, state.trans h.started, ?_, ?_⟩
  · dsimp only
    rw [count, limit]
    exact h.excess
  · intro u hu looping
    rcases List.mem_or_eq_of_mem_set hu with hu | rfl
    · exact h.workers u hu looping
    · exact ⟨idle, place⟩

/-- One more departure, and one worker fewer in the loop. -/
def Departs (c : Config Impl Thread Event) : Prop :=
  ∃ c', threadManager.Run (fun _ mv => Removes mv) c c' ∧ Failing c' ∧
    total (onWorker inLoop) c'.threads + 1 = total (onWorker inLoop) c.threads ∧
    departures c'.log = departures c.log + 1

section Drive

variable {i : Nat} {t : Thread}

theorem total_moved (here : c.threads[i]? = some t) (idle : t.call = .none) (w : Worker) :
    total (onWorker inLoop) (c.threads.set i (t.withWorker idle w)) + inLoop t.worker =
      total (onWorker inLoop) c.threads + inLoop w :=
  total_worker inLoop (Program.Woken.refl threadManager c.threads) here idle w

theorem leaving_stays (activated : Bool) :
    Worker.leaving activated ≠ .parked ∧ Worker.leaving activated ≠ .escaped :=
  ⟨nofun, nofun⟩

theorem Failing.departs_of_test (h : Failing c) (here : c.threads[i]? = some t)
    (idle : t.call = .none) (place : t.worker = .loop ∨ t.worker = .woken) : Departs c := by
  have moved := total_moved here idle (.leaving true)
  have inactive := h.inactive
  rcases place with place | place
  · have fires : workerBlock c.shared t.ref t.worker (.iterate ⟨fun _ => 0, none⟩) =
        some { shared := c.shared, self := .leaving true, events := [.left] } := by
      simp [place, workerBlock, iterateBlock, settleBlock, inactive]
    refine ⟨_, run_worker h.alive here idle fires rfl rfl,
      h.moved idle h.alive rfl rfl rfl (leaving_stays true), ?_, departures_append _ _ _⟩
    simpa [place, inLoop] using moved
  · have fires : workerBlock c.shared t.ref t.worker (.resume ⟨fun _ => 0, none⟩) =
        some { shared := { c.shared with idleCount := decrement c.shared.idleCount }
               self := .leaving true
               events := [.left] } := by
      simp [place, workerBlock, resumeBlock, settleBlock, inactive]
    refine ⟨_, run_worker h.alive here idle fires rfl rfl,
      h.moved idle h.alive rfl rfl rfl (leaving_stays true), ?_, departures_append _ _ _⟩
    simpa [place, inLoop] using moved

/-- A step inside the loop leaves the departure still to come. -/
theorem Failing.departs_after (h : Failing c) (here : c.threads[i]? = some t)
    (idle : t.call = .none)
    (looping : inLoop t.worker = 1) {a : WorkerAct} {w : Worker} {es : List Event}
    (fires : workerBlock c.shared t.ref t.worker a =
      some { shared := c.shared, self := w, events := es })
    (stays : inLoop w = 1 ∧ w ≠ .parked ∧ w ≠ .escaped) (silent : es.count .left = 0)
    (later : ∀ c' : Config Impl Thread Event, Failing c' →
      c'.threads[i]? = some (t.withWorker idle w) → Departs c') : Departs c := by
  have moved := total_moved here idle w
  have bound : i < c.threads.length := (List.getElem?_eq_some_iff.mp here).1
  have first := run_worker h.alive here idle fires rfl rfl
  obtain ⟨c', run, failing, fewer, more⟩ := later _
    (h.moved idle h.alive rfl rfl rfl stays.2) (List.getElem?_set_self bound)
  refine ⟨c', first.trans run, failing, ?_, ?_⟩
  · dsimp only at fewer
    omega
  · rw [more]
    dsimp only
    rw [departures_append, silent]

theorem Failing.departs_of_running (h : Failing c) (here : c.threads[i]? = some t)
    (idle : t.call = .none) {task : Task} (place : t.worker = .running task) : Departs c := by
  have fires : workerBlock c.shared t.ref t.worker (.finish false) =
      some { shared := c.shared, self := .loop, events := [.finished task.id false] } := by
    simp [place, workerBlock, finishBlock]
  exact h.departs_after here idle (by rw [place]; rfl) fires ⟨rfl, nofun, nofun⟩ rfl
    fun c' failing here' => failing.departs_of_test here' idle (.inl rfl)

theorem Failing.departs_of_holding (h : Failing c) (here : c.threads[i]? = some t)
    (idle : t.call = .none) {task : Task} (place : t.worker = .holding task) : Departs c := by
  have looping : inLoop t.worker = 1 := by rw [place]; rfl
  by_cases executing : task.state = .executing
  · have fires : workerBlock c.shared t.ref t.worker .run =
        some { shared := c.shared, self := .running task, events := [.ran task.id] } := by
      simp [place, workerBlock, runBlock, executing]
    exact h.departs_after here idle looping fires ⟨rfl, nofun, nofun⟩ rfl
      fun c' failing here' => failing.departs_of_running here' idle rfl
  · have fires : workerBlock c.shared t.ref t.worker .run =
        some { shared := c.shared, self := .loop, events := [] } := by
      simp [place, workerBlock, runBlock, executing]
    exact h.departs_after here idle looping fires ⟨rfl, nofun, nofun⟩ rfl
      fun c' failing here' => failing.departs_of_test here' idle (.inl rfl)

end Drive

/-- While a worker is in its loop, one can be driven out of it. -/
theorem Failing.departs (h : Failing c) (some : 0 < total (onWorker inLoop) c.threads) :
    Departs c := by
  obtain ⟨i, t, here, positive⟩ := exists_of_total_pos some
  have looping : inLoop t.worker = 1 := by
    unfold onWorker at positive
    revert positive
    cases t.worker <;> simp [inLoop]
  obtain ⟨idle, awake, stays⟩ := h.workers t (List.mem_of_getElem? here) looping
  cases place : t.worker with
  | loop => exact h.departs_of_test here idle (.inl place)
  | woken => exact h.departs_of_test here idle (.inr place)
  | holding => exact h.departs_of_holding here idle place
  | running => exact h.departs_of_running here idle place
  | parked => exact absurd place awake
  | escaped => exact absurd place stays
  | _ => simp [place, inLoop] at looping

theorem Failing.departs_many (h : Failing c) {m : Nat}
    (many : m ≤ total (onWorker inLoop) c.threads) :
    ∃ c', threadManager.Run (fun _ mv => Removes mv) c c' ∧
      departures c'.log = departures c.log + m := by
  induction m generalizing c with
  | zero => exact ⟨c, .refl, rfl⟩
  | succ m ih =>
    obtain ⟨c₁, first, failing, fewer, one⟩ := h.departs (by omega)
    obtain ⟨c', rest, more⟩ := ih failing (by omega)
    exact ⟨c', first.trans rest, by omega⟩

theorem free_wake {u : Thread} (h : inLoop u.worker = 1 → u.call = .none ∧ u.worker ≠ .escaped) :
    inLoop u.wake.worker = 1 → u.wake.call = .none ∧ u.wake.worker ≠ .escaped := by
  intro inside
  have before : inLoop u.worker = 1 := (Steady.wake (f := inLoop) u.worker).symm.trans inside
  obtain ⟨none, stays⟩ := h before
  refine ⟨Call.wake_eq_none.mpr none, fun escaped => stays ?_⟩
  obtain ⟨_, worker, _, _⟩ := u
  cases worker <;> first | rfl | cases escaped

/-- The lowering `RemoveWorker` leaves nobody parked. -/
theorem Pool.failing (h : Pool n k c) (some : 0 < k) :
    ∃ c', threadManager.Run (fun _ mv => Removes mv) c c' ∧ Failing c' ∧
      total (onWorker inLoop) c'.threads = n ∧ departures c'.log = departures c.log := by
  obtain ⟨i, t, here, positive⟩ := exists_of_total_pos (h.one ▸ Nat.one_pos :
    0 < total (onCall unlowered) c.threads)
  obtain ⟨absent, place⟩ : t.worker = .absent ∧ t.call = .removeWorker k .client := by
    rcases h.calls t (List.mem_of_getElem? here) with none | client
    · simp [onCall, none, unlowered] at positive
    · exact client
  have makesCalls : t.worker.makesCalls = true := by rw [absent]; rfl
  have enough : k ≤ c.shared.workerMaxCount := h.limit ▸ h.enough
  obtain ⟨cs, us, delivered⟩ := threadManager.exists_deliver (lowerSignals c.shared k) c.threads
  have step : CallStep c.shared t.ref.id t.call .lower _ := place ▸ CallStep.lowers enough
  have woken := threadManager.deliver_woken delivered
  have noStart : total (onCall startWaits) c.threads = 0 := total_eq_zero.mpr fun u hu => by
    rcases h.calls u hu with none | ⟨-, removes⟩
    · simp [onCall, none, startWaits]
    · simp [onCall, removes, startWaits]
  have asleep := parked_le c.threads
  have sleepers := parked_call step delivered here makesCalls rfl (by rw [place]; rfl) rfl
  rw [afterSignals_lower (by rw [h.idle]; omega)] at sleepers
  have looping := total_call_worker inLoop woken here makesCalls (.awaitRemoved .client) []
  have fires : threadManager.block c.shared t (.call .lower) =
      Option.some (Outcome.mapSelf (t.withCall makesCalls)
        { shared := { c.shared with workerMaxCount := c.shared.workerMaxCount - k }
          self := .awaitRemoved .client
          signals := lowerSignals c.shared k }) := by
    have block : callBlock c.shared t.ref.id t.call .lower =
        Option.some (lowerBlock c.shared k .client) := by
      rw [place]
      rfl
    simp [threadManager, h.alive, threadBlock, makesCalls, block, lowerBlock, Nat.not_lt.mpr enough]
  have ok : Removes (.run i (.call .lower) cs) := rfl
  have free (u : Thread) (hu : u ∈ c.threads) (inside : inLoop u.worker = 1) :
      u.call = .none ∧ u.worker ≠ .escaped := by
    refine ⟨?_, (h.workers u hu).2.2⟩
    rcases h.calls u hu with none | ⟨absent, -⟩
    · exact none
    · simp [absent, inLoop] at inside
  refine ⟨_, .tail .refl ok (.run here fires delivered), ⟨h.alive, h.started, ?_, ?_⟩, ?_, ?_⟩
  · simp only [Outcome.mapSelf, h.limit, h.count]
    have enough := h.enough
    omega
  · intro u hu inside
    have all := threadManager.forall_run
      (fun u : Thread => inLoop u.worker = 1 → u.call = .none ∧ u.worker ≠ .escaped)
      (fun _ _ => free_wake) woken free (t.withCall makesCalls (.awaitRemoved .client))
      (fun inside => by simp [Thread.withCall, absent, inLoop] at inside) [] (by simp) i u hu inside
    refine ⟨all.1, ?_, all.2⟩
    intro asleep
    have one := le_total (threadManager.parkedIn .monitor) hu
    rw [parkedIn_of_parked asleep] at one
    exact Nat.lt_irrefl 0 (Nat.lt_of_lt_of_le one (Nat.le_of_eq sleepers))
  · simpa [Outcome.mapSelf, h.size] using looping
  · simp [Outcome.mapSelf]

/-- `RemoveWorker(k)` on a pool of `n` workers removes exactly `k` of them, in whatever
order they and the call take their steps, just if `k` is `0` or `n`. -/
theorem removes_exactly_iff (h : Pool n k c) :
    (∀ c', threadManager.Run (fun _ mv => Removes mv) c c' → RemovesExactly n k c c') ↔
      k = 0 ∨ k = n := by
  constructor
  · intro all
    by_contra between
    have enough := h.enough
    obtain ⟨c₁, lowered, failing, size, same⟩ := h.failing (by omega)
    obtain ⟨c', leave, many⟩ := failing.departs_many (m := k + 1) (by omega)
    have departed := (all c' (lowered.trans leave)).departed
    omega
  · intro ends c' run
    let inv (c' : Config Impl Thread Event) := Shrinking n k (departures c.log) c' ∧ Rested c'
    have init : inv c := ⟨h.shrinking, h.rested⟩
    obtain ⟨shrinking, rested⟩ : inv c' := run.invariant init fun h ok step =>
      ⟨shrinking_step h.1 ok (change_of_step step),
        rested_step h.2 h.1 ok (change_of_step step)⟩
    exact shrinking.exact rested ends

end Run

/-- A pool of one parked worker, to be emptied. -/
def lastWorker : Config Impl Thread Event where
  shared := { workerCount := 1, workerMaxCount := 1, idleCount := 1, state := .started }
  threads := [{ ref := ⟨0, 1⟩, call := .removeWorker 1 .client },
    { ref := ⟨1, 7⟩, worker := .parked }]

theorem removes_exactly_lastWorker : Pool 1 1 lastWorker ∧
    ∀ c, threadManager.Run (fun _ mv => Removes mv) lastWorker c →
      RemovesExactly 1 1 lastWorker c := by
  have pool : Pool 1 1 lastWorker := by decide
  exact ⟨pool, (removes_exactly_iff pool).mpr (.inr rfl)⟩

/-- A manager with two workers, one of them parked, and a client in `RemoveWorker(1)`. -/
def twoWorkers : List (Move Act) :=
  [.run 0 (.call (.setThreadFactory true)) [], .run 0 (.call (.start (some (2, 0)))) [],
    .run 0 (.call .setPendingTaskCountMax) [], .run 0 (.call .testStopped) [],
    .run 0 (.call .lockStart) [], .run 0 (.call .newThreads) [], .run 0 (.call .raise) [],
    .run 0 (.call (.startThread (some 7))) [], .run 0 (.call .register) [],
    .run 0 (.call (.startThread (some 8))) [], .run 0 (.call .register) [],
    .run 1 (.worker .enter) [], .run 2 (.worker .enter) [], .run 2 (.worker .announce) [],
    .run 0 (.call .awaitAdded) [], .run 1 (.worker (.iterate ⟨fun _ => 0, none⟩)) [],
    .run 0 (.call (.removeWorker 1)) []]

/-- Both workers test before either of them is counted out. -/
def bothLeave : List (Move Act) :=
  [.run 0 (.call .lower) [], .run 1 (.worker (.resume ⟨fun _ => 0, none⟩)) [],
    .run 2 (.worker (.iterate ⟨fun _ => 0, none⟩)) [], .run 1 (.worker .exit) [],
    .run 2 (.worker .exit) []]

theorem one_removal_removes_two : ∃ c₀ c, threadManager.Reach (fresh [1]) c₀ ∧ Pool 2 1 c₀ ∧
    threadManager.Run (fun _ mv => Removes mv) c₀ c ∧ departures c.log = departures c₀.log + 2 ∧
    c.shared.workerMaxCount = 1 ∧ c.shared.workerCount = 0 ∧
    ∀ t ∈ c.threads, inLoop t.worker = 0 := by
  obtain ⟨c₀, reach, pool, next⟩ := threadManager.exists_reach (fresh [1])
    (fun c₀ => Pool 2 1 c₀ ∧ (threadManager.execWhile (fun _ mv => Removes mv) c₀ bothLeave).any
      (fun c => decide (departures c.log = departures c₀.log + 2 ∧ c.shared.workerMaxCount = 1 ∧
        c.shared.workerCount = 0 ∧ ∀ t ∈ c.threads, inLoop t.worker = 0)) = true) twoWorkers
    (by decide)
  obtain ⟨c, run, gone⟩ := (Option.any_eq_true _ _).mp next
  exact ⟨c₀, c, reach, pool, Program.run_of_execWhile run, of_decide_eq_true gone⟩

end Threads.Manager
