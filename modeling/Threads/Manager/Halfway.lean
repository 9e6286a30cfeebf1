import Threads.Manager.Producers

/-!
# Shutdowns that fail half-way

`StopImpl` changes `state_`, reads `worker_count_` without a lock and asks
`RemoveWorker` for that many workers. `RemoveWorker` compares the number with
`worker_max_count_`, which may be smaller by then, or already have been smaller.
-/

namespace Threads.Manager

open Concurrency

/-- One for a call of `StopImpl` between its change of `state_` and its last block. -/
def retiring : Call → Nat
  | .readCount _ | .removeWorker _ (.stopImpl _) => 1
  | .awaitRemoved (.stopImpl _) | .removedParked (.stopImpl _) | .finishStop _ true => 1
  | _ => 0

/-- The worker count that a call of `StopImpl` has read and not yet checked. -/
def asked : Call → Nat
  | .removeWorker value (.stopImpl _) => value
  | _ => 0

/-- What a client's `RemoveWorker` is about to take from the limit. -/
def withdraws (limit : Nat) : Call → Nat
  | .removeWorker value .client => if value ≤ limit then value else 0
  | _ => 0

instance : SteadyCall retiring where
  wake c := by
    cases c with
    | removedParked caller => cases caller <;> rfl
    | _ => rfl

instance : SteadyCall asked := ⟨fun c => by cases c <;> rfl⟩

/-- An exception of `Stop` or `Join`. -/
def Event.failsStop : Event → Bool
  | .threw .stop _ | .threw .join _ => true
  | _ => false

/-- Every check that `StopImpl` has still to make would pass, `Stop` and `Join` have not
thrown, and a manager that is `JOINING` or `STOPPING` has a call in progress that
retires its workers. -/
structure ShutdownSound (c : Config Impl Thread Event) : Prop where
  checks : ∀ t ∈ c.threads, asked t.call ≤ c.shared.workerMaxCount
  silent : ∀ e ∈ c.log, e.2.failsStop = false
  retired : c.shared.state = .joining ∨ c.shared.state = .stopping →
    ∃ t ∈ c.threads, retiring t.call = 1

instance (c : Config Impl Thread Event) : Decidable (ShutdownSound c) :=
  decidable_of_iff ((∀ t ∈ c.threads, asked t.call ≤ c.shared.workerMaxCount) ∧
    (∀ e ∈ c.log, e.2.failsStop = false) ∧
    (c.shared.state = .joining ∨ c.shared.state = .stopping →
      ∃ t ∈ c.threads, retiring t.call = 1))
    ⟨fun ⟨a, b, d⟩ => ⟨a, b, d⟩, fun ⟨a, b, d⟩ => ⟨a, b, d⟩⟩

/-- `StopImpl` reads a count within the limit, and no client lowers the limit below a
count that has been read and not yet checked. -/
def StopsInTime (c : Config Impl Thread Event) : Move Act → Prop
  | .run _ (.call .readCount) _ => c.shared.workerCount ≤ c.shared.workerMaxCount
  | .run i (.call .lower) _ => ∀ t ∈ c.threads[i]?, ∀ u ∈ c.threads,
    asked u.call + withdraws c.shared.workerMaxCount t.call ≤ c.shared.workerMaxCount
  | _ => True

instance (c : Config Impl Thread Event) (mv : ManagerMove) : Decidable (StopsInTime c mv) := by
  unfold StopsInTime
  split <;> infer_instance

/-! ## One step -/

section Call

variable {s : Impl} {id : Nat} {d : Call} {a : CallAct} {o : Effect Call}

/-- What a block of a call does to `state_` and to the calls that retire workers. -/
inductive ShutdownMove (s : Impl) (d : Call) (o : Effect Call) : Prop
  | aside (state : o.shared.state = s.state) (same : retiring o.self = retiring d)
  | starts (fresh : s.state = .uninitialized) (state : o.shared.state = .started)
      (same : retiring o.self = retiring d)
  | begins (first : s.state ≠ .stopping ∧ s.state ≠ .joining ∧ s.state ≠ .stopped)
      (state : o.shared.state = .joining ∨ o.shared.state = .stopping) (after : retiring o.self = 1)
  | ends (state : o.shared.state = .stopped) (after : retiring o.self = 0)

/-- What a block of a call does to the limit and to the counts that are still to be
compared with it. -/
inductive LimitMove (s : Impl) (d : Call) (a : CallAct) (o : Effect Call) : Prop
  | aside (limit : s.workerMaxCount ≤ o.shared.workerMaxCount) (after : asked o.self = 0)
      (other : a ≠ .readCount) (spared : a = .lower → withdraws s.workerMaxCount d = 0)
  | reads (act : a = .readCount) (limit : o.shared.workerMaxCount = s.workerMaxCount)
      (after : asked o.self = s.workerCount)
  | lowers (act : a = .lower)
      (limit : o.shared.workerMaxCount + asked d + withdraws s.workerMaxCount d = s.workerMaxCount)
      (after : asked o.self = 0) (own : asked d = 0 ∨ retiring d = 1)

theorem CallStep.shutdownMove (h : CallStep s id d a o) (checks : asked d ≤ s.workerMaxCount) :
    ShutdownMove s d o := by
  cases h with
  | @started workers fresh => cases workers <;> exact .starts fresh rfl rfl
  | @startAgain workers | @resumeStart workers =>
    unfold startWaitBlock
    split <;> cases workers <;> exact .aside rfl rfl
  | @raise objects | @register thread objects => cases objects <;> exact .aside rfl rfl
  | @startThread object objects created => cases created <;> exact .aside rfl rfl
  | @lowerFails value caller tooMany =>
    cases caller with
    | client => exact .aside rfl rfl
    | stopImpl join =>
      simp only [asked] at checks
      omega
  | @lowers value caller => cases caller <;> exact .aside rfl rfl
  | @removedParks caller | @removed caller => cases caller <;> exact .aside rfl rfl
  | @shutsDown join first =>
    cases join with
    | false => exact .begins first (.inr rfl) rfl
    | true => exact .begins first (.inl rfl) rfl
  | finishStop => exact .ends rfl rfl
  | remove =>
    obtain ⟨e, eq⟩ := removeBlock_eq s
    rw [eq]
    exact .aside rfl rfl
  | removeNextPending =>
    obtain ⟨tasks, es, -, eq⟩ := removeNextPendingBlock_eq s
    rw [eq]
    exact .aside rfl rfl
  | _ => exact .aside rfl rfl

theorem CallStep.limitMove (h : CallStep s id d a o) : LimitMove s d a o := by
  cases h with
  | @started workers => cases workers <;> exact .aside (Nat.le_refl _) rfl nofun nofun
  | @startAgain workers | @resumeStart workers =>
    unfold startWaitBlock
    split <;> cases workers <;> exact .aside (Nat.le_refl _) rfl nofun nofun
  | @raise objects => cases objects <;> exact .aside (Nat.le_add_right _ _) rfl nofun nofun
  | @register thread objects => cases objects <;> exact .aside (Nat.le_refl _) rfl nofun nofun
  | @startThread object objects created =>
    cases created <;> exact .aside (Nat.le_refl _) rfl nofun nofun
  | @lowerFails value caller tooMany =>
    have none : withdraws s.workerMaxCount (.removeWorker value caller) = 0 := by
      cases caller with
      | client => exact if_neg (Nat.not_le_of_gt tooMany)
      | stopImpl => rfl
    exact .aside (Nat.le_refl _) rfl nofun fun _ => none
  | readCount => exact .reads rfl rfl rfl
  | @lowers value caller enough =>
    cases caller with
    | client => exact .lowers rfl (by simp [asked, withdraws, enough]) rfl (.inl rfl)
    | stopImpl join => exact .lowers rfl (by simp [asked, withdraws, enough]) rfl (.inr rfl)
  | @removed caller => cases caller <;> exact .aside (Nat.le_refl _) rfl nofun nofun
  | remove =>
    obtain ⟨e, eq⟩ := removeBlock_eq s
    rw [eq]
    exact .aside (Nat.le_refl _) rfl nofun nofun
  | removeNextPending =>
    obtain ⟨tasks, es, -, eq⟩ := removeNextPendingBlock_eq s
    rw [eq]
    exact .aside (Nat.le_refl _) rfl nofun nofun
  | _ => exact .aside (Nat.le_refl _) rfl nofun nofun

theorem failsStop_expiry {e : Event} {env : Surroundings} (h : e ∈ s.expiryEvents env) :
    e.failsStop = false := by
  rcases Impl.mem_expiryEvents h with ⟨t, rfl⟩ | ⟨t, callback, rfl⟩ <;> rfl

/-- `Stop` and `Join` throw only where their count exceeds the limit. -/
theorem CallStep.failsStop (h : CallStep s id d a o) (checks : asked d ≤ s.workerMaxCount) :
    ∀ e ∈ o.events, e.failsStop = false := by
  have starts (workers : Option Nat) : ∀ e ∈ startedEvents workers, e.failsStop = false := by
    cases workers <;> simp [startedEvents, Event.failsStop]
  intro e he
  cases h with
  | startRefused | startFails | added | addRefused | guardFails | timesOut | expiredTaskCount =>
    rw [List.mem_singleton.mp he]
    rfl
  | started =>
    rcases List.mem_cons.mp he with rfl | he
    · rfl
    · exact starts _ e he
  | startAgain | resumeStart =>
    unfold startWaitBlock at he
    split at he
    · cases he
    · exact starts _ e he
  | @startThread object objects created => cases created <;> cases he
  | @lowerFails value caller tooMany =>
    cases caller with
    | client =>
      rw [List.mem_singleton.mp he]
      rfl
    | stopImpl join =>
      simp only [asked] at checks
      omega
  | @removed caller =>
    cases caller with
    | client =>
      rw [List.mem_singleton.mp he]
      rfl
    | stopImpl => cases he
  | @stopRefused join | @shutsDown join =>
    rw [List.mem_singleton.mp he]
    cases join <;> rfl
  | @finishStop join =>
    rcases List.mem_pair.mp he with rfl | rfl
    · rfl
    · cases join <;> rfl
  | addParks => exact failsStop_expiry he
  | addRaised | addTooMany =>
    rcases List.mem_append.mp he with he | he
    · exact failsStop_expiry he
    · rw [List.mem_singleton.mp he]
      rfl
  | adds =>
    rcases List.mem_append.mp he with he | he
    · exact failsStop_expiry he
    · rcases List.mem_pair.mp he with rfl | rfl <;> rfl
  | resumesAndAdds => rcases List.mem_pair.mp he with rfl | rfl <;> rfl
  | remove =>
    unfold removeBlock at he
    split at he <;> rw [List.mem_singleton.mp he] <;> rfl
  | removeNextPending =>
    unfold removeNextPendingBlock at he
    split at he
    · rw [List.mem_singleton.mp he]
      rfl
    · split at he
      · rw [List.mem_singleton.mp he]
        rfl
      · rcases List.mem_pair.mp he with rfl | rfl <;> rfl
  | removeExpiredTasks =>
    rcases List.mem_append.mp he with he | he
    · exact failsStop_expiry he
    · split at he <;> rw [List.mem_singleton.mp he] <;> rfl
  | _ => cases he

end Call

/-- At most one call retires workers, and none before the shutdown has begun. -/
structure HalfwayAccount (c : Config Impl Thread Event) : Prop where
  sound : ShutdownSound c
  few : total (onCall retiring) c.threads ≤ 1
  begun : 0 < total (onCall retiring) c.threads →
    c.shared.state = .joining ∨ c.shared.state = .stopping ∨ c.shared.state = .stopped

theorem retiring_le_one (d : Call) : retiring d ≤ 1 := by
  unfold retiring
  split <;> decide

theorem exists_retiring {ts : List Thread} :
    0 < total (onCall retiring) ts ↔ ∃ t ∈ ts, retiring t.call = 1 := by
  constructor
  · intro some
    obtain ⟨i, t, here, pos⟩ := exists_of_total_pos some
    exact ⟨t, List.mem_of_getElem? here, Nat.le_antisymm (retiring_le_one _) pos⟩
  · rintro ⟨t, mem, one⟩
    have present := le_total (onCall retiring) mem
    unfold onCall at present ⊢
    omega

theorem asked_of_idle {d : Call} (idle : retiring d = 0) : asked d = 0 := by
  cases d with
  | removeWorker value caller =>
    cases caller with
    | client => rfl
    | stopImpl => cases idle
  | _ => rfl

section Step

variable {c c' : Config Impl Thread Event} {mv : Move Act}

theorem halfwayAccount_call (h : HalfwayAccount c) {i : Nat} {cs : List Nat} {a : CallAct}
    {t : Thread} {o : Effect Call} {ts : List Thread} (here : c.threads[i]? = some t)
    (makesCalls : t.worker.makesCalls = true) (step : CallStep c.shared t.ref.id t.call a o)
    (delivered : threadManager.deliver o.signals cs c.threads = some ts)
    (ok : StopsInTime c (.run i (.call a) cs)) :
    HalfwayAccount ⟨o.shared, ts.set i (t.withCall makesCalls o.self) ++ o.spawned,
      c.log ++ o.events.map (Prod.mk i)⟩ := by
  obtain ⟨⟨checks, silent, retired⟩, few, begun⟩ := h
  rw [← exists_retiring] at retired
  have woken := threadManager.deliver_woken delivered
  have mem := List.mem_of_getElem? here
  have own : retiring t.call ≤ total (onCall retiring) c.threads :=
    le_total_of_getElem? (onCall retiring) here
  have moved := step.moves_calls retiring rfl woken here makesCalls
  have move := step.shutdownMove (checks t mem)
  refine ⟨⟨?_, ?_, ?_⟩, ?_, ?_⟩
  · refine forall_call (p := fun d => asked d ≤ o.shared.workerMaxCount)
      (fun d le => le_of_eq_of_le (SteadyCall.wake d) le) (Nat.zero_le _) step woken makesCalls ?_
      fun j u other there => ?_
    · cases step.limitMove with
      | aside limit after => exact after ▸ Nat.zero_le _
      | reads act limit after =>
        subst act
        rw [after, limit]
        exact ok
      | lowers act limit after => exact after ▸ Nat.zero_le _
    · have before := checks u (List.mem_of_getElem? there)
      have both : retiring u.call + retiring t.call ≤ total (onCall retiring) c.threads :=
        add_le_total (onCall retiring) other there here
      cases step.limitMove with
      | aside limit after => exact before.trans limit
      | reads act limit after => exact limit ▸ before
      | lowers act limit after mine =>
        subst act
        have enough : asked u.call + withdraws c.shared.workerMaxCount t.call ≤
          c.shared.workerMaxCount := ok t here u (List.mem_of_getElem? there)
        rcases mine with none | retires
        · omega
        · have alone : asked u.call = 0 := asked_of_idle (by omega)
          omega
  · intro e old
    rcases List.mem_append.mp old with old | new
    · exact silent e old
    · obtain ⟨f, from_, rfl⟩ := List.mem_map.mp new
      exact step.failsStop (checks t mem) f from_
  · rw [← exists_retiring]
    dsimp only
    intro down
    cases move with
    | aside state same =>
      rw [state] at down
      have some := retired down
      omega
    | starts fresh state =>
      rw [state] at down
      rcases down with down | down <;> cases down
    | begins first state after => omega
    | ends state after =>
      rw [state] at down
      rcases down with down | down <;> cases down
  · dsimp only
    cases move with
    | aside state same | starts fresh state same => omega
    | begins first state after =>
      have none : ¬ 0 < total (onCall retiring) c.threads := fun some => by
        rcases begun some with joining | stopping | stopped
        · exact first.2.1 joining
        · exact first.1 stopping
        · exact first.2.2 stopped
      omega
    | ends state after => omega
  · dsimp only
    intro some
    cases move with
    | aside state same =>
      rw [state]
      exact begun (by omega)
    | starts fresh state same =>
      have before := begun (by omega)
      rw [fresh] at before
      rcases before with eq | eq | eq <;> cases eq
    | begins first state after =>
      rcases state with joining | stopping
      · exact .inl joining
      · exact .inr (.inl stopping)
    | ends state after => exact .inr (.inr state)

theorem halfwayAccount_step (h : HalfwayAccount c) (ok : StopsInTime c mv)
    (change : Change c mv c') : HalfwayAccount c' := by
  have wakes {m : Nat} (d : Call) (le : asked d ≤ m) : asked d.wake ≤ m :=
    le_of_eq_of_le (SteadyCall.wake d) le
  cases change with
  | @spurious i t here waits =>
    obtain ⟨⟨checks, silent, retired⟩, few, begun⟩ := h
    have same := total_call_spurious retiring here waits
    rw [← exists_retiring] at retired
    refine ⟨⟨?_, silent, ?_⟩, ?_, ?_⟩
    · intro u mem
      rcases List.mem_or_eq_of_mem_set mem with old | rfl
      · exact checks u old
      · exact wakes t.call (checks t (List.mem_of_getElem? here))
    · rw [← exists_retiring]
      exact fun down => same ▸ retired down
    · exact same ▸ few
    · exact fun some => begun (same ▸ some)
  | @worker i a cs t w o ts alive here idle place step delivered =>
    obtain ⟨⟨checks, silent, retired⟩, few, begun⟩ := h
    have woken := threadManager.deliver_woken delivered
    have same := total_worker_call retiring woken here idle o.self
    rw [← exists_retiring] at retired
    refine ⟨⟨?_, ?_, ?_⟩, ?_, ?_⟩
    · dsimp only
      rw [step.workerMaxCount]
      exact forall_worker wakes woken here idle o.self checks
    · intro e old
      rcases List.mem_append.mp old with old | new
      · exact silent e old
      · obtain ⟨f, from_, rfl⟩ := List.mem_map.mp new
        have worker := step.events f from_
        cases f with
        | threw => cases worker
        | _ => rfl
    · rw [← exists_retiring]
      dsimp only
      rw [step.state, same]
      exact retired
    · exact same ▸ few
    · dsimp only
      rw [step.state, same]
      exact begun
  | call alive here makesCalls place step delivered =>
    subst place
    exact halfwayAccount_call h here makesCalls step delivered ok

/-- A count that is read too late, or a limit that is lowered too early, leaves a check
that fails. -/
theorem check_would_fail (h : HalfwayAccount c) (bad : ¬ StopsInTime c mv)
    (change : Change c mv c') : ¬ ShutdownSound c' := by
  rintro ⟨checks, -, -⟩
  cases change with
  | spurious | worker => exact bad trivial
  | @call i a cs t d o ts alive here makesCalls place step delivered =>
    subst place
    have woken := threadManager.deliver_woken delivered
    cases step.limitMove with
    | aside limit after other spared =>
      apply bad
      cases a with
      | readCount => exact absurd rfl other
      | lower =>
        intro t' same u mem
        obtain rfl : t = t' := Option.some.inj (here.symm.trans same)
        rw [spared rfl]
        exact h.sound.checks u mem
      | _ => trivial
    | reads act limit after =>
      subst act
      have there := threadManager.getElem?_run_self woken here
        (t.withCall makesCalls o.self) o.spawned
      have check := checks _ (List.mem_of_getElem? there)
      apply bad
      rwa [show asked (t.withCall makesCalls o.self).call = _ from after, limit] at check
    | lowers act limit after mine =>
      subst act
      apply bad
      intro t' same u mem
      obtain rfl : t = t' := Option.some.inj (here.symm.trans same)
      have before := h.sound.checks u mem
      obtain ⟨j, there⟩ := List.mem_iff_getElem?.mp mem
      by_cases own : j = i
      · subst own
        obtain rfl : t = u := Option.some.inj (here.symm.trans there)
        omega
      · obtain ⟨u', after, woke⟩ := threadManager.getElem?_run_other woken own there
          (t.withCall makesCalls o.self) o.spawned
        have check := checks u' (List.mem_of_getElem? after)
        dsimp only at check
        have same : asked u'.call = asked u.call := by
          rcases woke with rfl | ⟨-, rfl⟩
          · rfl
          · exact SteadyCall.wake u.call
        omega

end Step

theorem halfwayAccount_fresh (clients : List Nat) : HalfwayAccount (fresh clients) := by
  refine ⟨⟨fun t mem => ?_, nofun, nofun⟩, ?_, fun some => ?_⟩
  · obtain ⟨id, -, rfl⟩ := List.mem_map.mp mem
    exact Nat.le_refl _
  · rw [total_fresh clients fun _ => rfl]
    exact Nat.zero_le _
  · rw [total_fresh clients fun _ => rfl] at some
    cases some

/-- No shutdown fails half-way along a schedule exactly if `StopImpl` always reads a count
within the limit and no client lowers the limit below a count that is still to be
checked. -/
theorem shutdown_sound_iff (clients : List Nat) (mvs : List (Move Act)) :
    threadManager.Throughout ShutdownSound (fresh clients) mvs ↔
      threadManager.EachStep StopsInTime (fresh clients) mvs :=
  Program.throughout_iff HalfwayAccount.sound
    (fun h ok step => halfwayAccount_step h ok (change_of_step step))
    (fun h bad step => check_would_fail h bad (change_of_step step))
    (halfwayAccount_fresh clients) mvs

/-- A manager with two workers is asked for one of them, and `Stop` reads `worker_count_`
before that one has gone. -/
def removeThenStop : List (Move Act) :=
  [.run 0 (.call (.setThreadFactory true)) [], .run 0 (.call (.start (some (2, 0)))) [],
    .run 0 (.call .setPendingTaskCountMax) [], .run 0 (.call .testStopped) [],
    .run 0 (.call .lockStart) [], .run 0 (.call .newThreads) [], .run 0 (.call .raise) [],
    .run 0 (.call (.startThread (some 7))) [], .run 0 (.call .register) [],
    .run 0 (.call (.startThread (some 8))) [], .run 0 (.call .register) [],
    .run 2 (.worker .enter) [], .run 3 (.worker .enter) [], .run 3 (.worker .announce) [],
    .run 0 (.call .awaitAdded) [], .run 1 (.call (.removeWorker 1)) [], .run 1 (.call .lower) [],
    .run 0 (.call (.stop false)) [], .run 0 (.call .lockStop) [], .run 0 (.call .readCount) [],
    .run 0 (.call .lower) [], .run 2 (.worker (.iterate ⟨fun _ => 0, none⟩)) [],
    .run 2 (.worker .exit) [1], .run 1 (.call .awaitRemoved) []]

/-- `Stop` throws, and leaves a manager that is `STOPPING` with a worker in its loop and
no call in progress. -/
theorem stop_fails_halfway : ∃ c, threadManager.Reach (fresh [1, 2]) c ∧ ¬ ShutdownSound c ∧
    (0, .threw .stop .invalidArgument) ∈ c.log ∧ c.shared.state = .stopping ∧
    (c.threads[3]?).map Thread.worker = some .loop ∧ ∀ t ∈ c.threads, t.call = .none :=
  threadManager.exists_reach _ _ removeThenStop (by decide)

end Threads.Manager
