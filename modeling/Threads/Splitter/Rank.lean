import Threads.Manager.Rank
import Threads.Splitter.Jobs

/-!
# The scheduler comes to rest

When no client begins an operation, copies or drops a reference, the operations in progress,
the jobs and the thread manager can go on for only so long. Each operation passes its stages,
at which it may call the thread manager; a job calls its observers one after the other.
-/

namespace Threads.Splitter

open Concurrency

/-- No client begins an operation, or copies or drops a reference, and nobody wakes up without
a notification. -/
def Proceeds (_ : Config JobScheduler Member JobEvent) : JobMove → Prop
  | .run _ (.addSplitterJob _) _ | .run _ (.copy _) _ | .run _ (.drop _) _ => False
  | .run _ _ _ => True
  | .spurious _ => False

/-! ## What is left to do -/

/-- The calls of the thread manager that an operation has still to begin, and its other steps;
`busy` when it is in such a call. -/
def Place.stage (busy : Bool) : Place → Nat
  | .initializing => if busy then 7 else 9
  | .starting => if busy then 5 else 7
  | .registering _ => 6
  | .appending _ => 5
  | .adding _ => if busy then 2 else 4
  | .handed => 1
  | .destroying _ => if busy then 1 else 3
  | _ => 0

def Member.stage (v : Member) : Nat := v.place.stage (v.thread.call != .none)

/-- The last reference goes once, and the process dies once. -/
def JobScheduler.stage (s : JobScheduler) : Nat :=
  (if 0 < s.useCount .scheduler then 4 else 0) + if s.crashed then 0 else 1

/-- The steps that `ObservableSplitterJob::Run` has still to take, three for an observer. -/
def Place.steps (lists : Nat → List Observer) : Place → Nat
  | .splitting job => 3 * (lists job).length + 2
  | .notifying job next => 3 * ((lists job).length - next) + 1
  | .calling job next _ => 3 * ((lists job).length - (next + 1)) + 3
  | .called job next _ _ => 3 * ((lists job).length - (next + 1)) + 2
  | _ => 0

def Member.steps (lists : Nat → List Observer) (v : Member) : Nat := v.place.steps lists

/-- The calls of the thread manager count more than what it still does by itself, and this
counts more than the steps of the jobs. -/
def rank (c : Config JobScheduler Member JobEvent) : Nat × Nat × Nat :=
  ((Manager.rank (managerPart.config c)).1 + total Member.stage c.threads + c.shared.stage,
    (Manager.rank (managerPart.config c)).2, total (Member.steps c.shared.observers) c.threads)

theorem stable_stage : jobScheduler.Stable Member.stage := by
  intro v _
  have same : (v.thread.call.wake != .none) = (v.thread.call != .none) := by
    cases v.thread.call <;> rfl
  show v.place.stage (v.thread.call.wake != .none) = v.stage
  rw [same]
  rfl

theorem Back.place_stage (back : Back) (busy : Bool) : back.place.stage busy = 0 := by
  cases back <;> rfl

theorem placeOf_stage (w : Manager.Worker) (busy : Bool) : (placeOf w).stage busy = 0 := by
  cases w <;> rfl

theorem stage_hold (s : JobScheduler) :
    ((s.hold .scheduler).keep .scheduler).stage ≤ s.stage + 4 := by
  show (if 0 < (s.hold .scheduler).useCount .scheduler then 4 else 0) + _ ≤ _ + _ + 4
  rw [Nat.add_right_comm]
  refine Nat.add_le_add_right ?_ _
  split
  · exact Nat.le_add_left 4 _
  · exact Nat.zero_le _

theorem stage_crash (s : JobScheduler) : { s with crashed := true }.stage ≤ s.stage :=
  Nat.add_le_add_left (Nat.zero_le _) _

/-! ## A block of the thread manager -/

theorem stage_busy (p : Place) (busy : Bool) : p.stage true ≤ p.stage busy := by
  cases busy with
  | true => exact Nat.le_refl _
  | false => cases p <;> first | exact Nat.le_refl _ | exact Nat.le_add_right _ 2

theorem stage_le_adding (job : Nat) (busy : Bool) : (Place.adding job).stage busy ≤ 4 := by
  cases busy with
  | true => exact Nat.le_add_right 2 2
  | false => exact Nat.le_refl 4

/-- A call that begins takes its operation to the next stage. -/
theorem stage_begins {s : JobScheduler} {p : Place} {a : Manager.CallAct}
    (begins : p.begins s a = true) : p.stage true + 2 ≤ p.stage false := by
  cases p with
  | initializing | starting | adding | destroying => exact Nat.le_refl _
  | _ => cases begins

/-- A block of the thread manager sets no operation back, whether the call goes on or is over. -/
theorem stage_next (s : JobScheduler) (t : Manager.Thread) (es : List Manager.Event) (p : Place) :
    (p.next t es).stage (t.call != .none) + (s.next t es p).stage ≤ p.stage true + s.stage := by
  have stays {q : Place} (place : q.stage (t.call != .none) ≤ p.stage true)
      {s' : JobScheduler} (same : s'.stage ≤ s.stage) :
      q.stage (t.call != .none) + s'.stage ≤ p.stage true + s.stage := Nat.add_le_add place same
  have ended {q : Place} (none : ∀ busy, q.stage busy = 0) :
      q.stage (t.call != .none) ≤ p.stage true := (none _).trans_le (Nat.zero_le _)
  cases p with
  | outside => exact stays (ended (placeOf_stage t.worker)) (Nat.le_refl _)
  | finished => exact stays (ended fun _ => rfl) (Nat.le_refl _)
  | initializing =>
    refine stays ?_ (Nat.le_refl _)
    show Place.stage _ .starting ≤ 7
    cases t.call != .none <;> decide
  | starting =>
    by_cases idle : t.call = .none
    · have hold := stage_hold s
      simp only [Place.next, JobScheduler.next, idle, true_and, if_true]
      show 0 + _ ≤ 5 + _
      split <;> omega
    · simp only [Place.next, JobScheduler.next, idle, false_and, if_false, bne_iff_ne.mpr idle]
      exact Nat.le_refl _
  | adding job =>
    have same : (s.next t es (.adding job)).stage ≤ s.stage := by
      simp only [JobScheduler.next]
      split <;> exact Nat.le_refl _
    refine stays ?_ same
    by_cases idle : t.call = .none
    · simp only [Place.next, idle, if_true]
      split
      · exact Nat.zero_le _
      · exact Nat.le_succ 1
    · simp only [Place.next, idle, if_false, bne_iff_ne.mpr idle]
      exact Nat.le_refl _
  | destroying back =>
    have less : (s.next t es (.destroying back)).stage ≤ s.stage := by
      simp only [JobScheduler.next]
      split
      · exact stage_crash s
      · exact Nat.le_refl _
    refine stays ?_ less
    by_cases idle : t.call = .none
    · simp only [Place.next, idle, if_true, Back.place_stage]
      exact Nat.zero_le _
    · simp only [Place.next, idle, if_false, bne_iff_ne.mpr idle]
      exact Nat.le_refl _
  | _ => exact Nat.le_refl _

theorem JobStep.not_manager {s : JobScheduler} {p : Place} {a : Manager.Act} {o : JobEffect Place} :
    ¬ JobStep s p (.manager a) o := nofun

/-- A block of the thread manager is a step of the manager alone, and its operation stands where
it stood, or further. -/
structure ManagerMove (c : Config JobScheduler Member JobEvent) (i : Nat) (a : Manager.Act)
    (cs : List Nat) (c' : Config JobScheduler Member JobEvent) (v : Member) : Prop where
  here : c.threads[i]? = some v
  permitted : v.permits c.shared a = true
  step : Manager.threadManager.Step (managerPart.config c) (.run i a cs) (managerPart.config c')
  stage : total Member.stage c'.threads + c'.shared.stage + v.stage ≤
    total Member.stage c.threads + c.shared.stage + v.place.stage true

theorem managerMove_of_step {c c' : Config JobScheduler Member JobEvent} {i : Nat}
    {a : Manager.Act} {cs : List Nat} (h : jobScheduler.Step c (.run i (.manager a) cs) c') :
    ∃ v, ManagerMove c i a cs c' v := by
  cases h with
  | @run _ _ _ v o ts here fires delivered =>
    rcases (jobScheduler_block fires).2 with ⟨a', same, block⟩ | ⟨_, o', step, rfl⟩
    swap
    · exact absurd step JobStep.not_manager
    obtain rfl := JobAct.manager.inj same
    unfold managerBlock at block
    split at block
    swap
    · cases block
    obtain ⟨o', runs, rfl⟩ := Option.map_eq_some_iff.mp block
    have threads : (o'.spawned.map Member.ofThread).map Member.thread = o'.spawned := by
      rw [List.map_map]
      exact List.map_id _
    have events : (o'.events.map JobEvent.manager).filterMap JobEvent.ofManager = o'.events := by
      rw [List.filterMap_map]
      exact List.filterMap_some
    refine ⟨v, here, ‹_›, managerPart.run_step here ?_ delivered, ?_⟩
    · simp only [managerPart, JobScheduler.next_impl, threads, events]
      exact runs
    · have moved := jobScheduler.total_run stable_stage (jobScheduler.deliver_woken delivered) here
        ⟨o'.self, v.place.next o'.self o'.events⟩ (o'.spawned.map .ofThread)
      have childless : total Member.stage (o'.spawned.map .ofThread) = 0 :=
        total_eq_zero.mpr fun u mem => by
          obtain ⟨t, _, rfl⟩ := List.mem_map.mp mem
          rfl
      have next := stage_next { c.shared with impl := o'.shared } o'.self o'.events v.place
      have after : Member.stage ⟨o'.self, v.place.next o'.self o'.events⟩ =
          (v.place.next o'.self o'.events).stage (o'.self.call != .none) := rfl
      have same : { c.shared with impl := o'.shared }.stage = c.shared.stage := rfl
      dsimp only at next same ⊢
      omega

/-- A call or a worker that goes on leaves the manager less to do; a call that begins takes its
operation on. -/
theorem ManagerMove.lowers {c c' : Config JobScheduler Member JobEvent} {i : Nat}
    {a : Manager.Act} {cs : List Nat} {v : Member} (h : ManagerMove c i a cs c' v) :
    Prod.Lex (· < ·) (Prod.Lex (· < ·) (· < ·)) (rank c') (rank c) := by
  have change := Manager.change_of_step h.step
  have stage := h.stage
  have own : v.stage = v.place.stage (v.thread.call != .none) := rfl
  unfold rank
  by_cases begins : ∃ a', a = .call a' ∧ v.thread.call = .none
  · obtain ⟨a', rfl, idle⟩ := begins
    have opens : v.place.begins c.shared a' = true := by
      simpa [Member.permits, idle] using h.permitted
    have later := stage_begins opens
    have first := Manager.rank_run_le change
    rw [bne_eq_false_iff_eq.mpr idle] at own
    exact .left _ _ (by omega)
  · have within : Manager.Continues (managerPart.config c) (.run i a cs) := by
      cases a with
      | worker a => trivial
      | call a =>
        have busy : v.thread.call ≠ .none := fun idle => begins ⟨a, rfl, idle⟩
        have there : (managerPart.config c).threads[i]? = some v.thread :=
          managerPart.getElem?_map h.here
        simpa [Manager.Continues, there] using busy
    have before := stage_busy v.place (v.thread.call != .none)
    rcases Prod.lex_def.mp (Manager.rank_lowers within change) with less | ⟨same, less⟩
    · exact .left _ _ (by omega)
    · have bound : (Manager.rank (managerPart.config c')).1 + total Member.stage c'.threads +
          c'.shared.stage ≤ (Manager.rank (managerPart.config c)).1 + total Member.stage c.threads +
          c.shared.stage := by omega
      rcases Nat.lt_or_eq_of_le bound with further | equal
      · exact .left _ _ further
      · rw [equal]
        exact .right _ (.left _ _ less)

/-! ## A step of the scheduler and its jobs -/

/-- Giving back a reference that is not the last one leaves the scheduler to be destroyed. -/
theorem letGo_stage (s : JobScheduler) {o : Observer}
    (others : ¬ (o = .scheduler ∧ s.useCount o = 1)) : (s.letGo o).stage = s.stage := by
  have alive : 0 < (s.letGo o).useCount .scheduler ↔ 0 < s.useCount .scheduler := by
    rw [JobScheduler.letGo_useCount]
    by_cases same : Observer.scheduler = o
    · subst same
      have more : s.useCount .scheduler ≠ 1 := fun one => others ⟨rfl, one⟩
      rw [if_pos rfl]
      omega
    · rw [if_neg same, Nat.sub_zero]
  unfold JobScheduler.stage
  simp only [alive]
  rfl

theorem letGo_last (s : JobScheduler) {o : Observer} (last : o = .scheduler ∧ s.useCount o = 1) :
    (s.letGo o).stage + 4 = s.stage := by
  obtain ⟨rfl, one⟩ := last
  have none : (s.letGo .scheduler).useCount .scheduler = 0 := by
    rw [JobScheduler.letGo_useCount, one, if_pos rfl]
  unfold JobScheduler.stage
  rw [none, one, if_neg (Nat.lt_irrefl 0), if_pos Nat.one_pos, Nat.zero_add, Nat.add_comm]
  rfl

theorem hold_stage (s : JobScheduler) {o : Observer} (live : 0 < s.useCount o) :
    (s.hold o).stage = s.stage := by
  have alive : 0 < (s.hold o).useCount .scheduler ↔ 0 < s.useCount .scheduler := by
    rw [JobScheduler.hold_useCount]
    by_cases same : Observer.scheduler = o
    · subst same
      rw [if_pos rfl]
      omega
    · rw [if_neg same, Nat.add_zero]
  unfold JobScheduler.stage
  simp only [alive]
  rfl

/-- What a step takes off: a stage of the operation, or a step of the job. -/
inductive JobSpends (s : JobScheduler) (p : Place) (o : JobEffect Place) (busy : Bool) : Prop
  | stage (less : o.self.stage busy + o.shared.stage < p.stage busy + s.stage)
  | steps (same : o.self.stage busy + o.shared.stage = p.stage busy + s.stage)
      (lists : o.shared.observers = s.observers)
      (less : o.self.steps s.observers < p.steps s.observers)

theorem JobStep.spends {s : JobScheduler} {p : Place} {a : JobAct} {o : JobEffect Place}
    (h : JobStep s p a o) (alive : s.crashed = false) (busy : Bool)
    {c : Config JobScheduler Member JobEvent} {i : Nat} {cs : List Nat}
    (ok : Proceeds c (.run i a cs)) : JobSpends s p o busy := by
  have onward {job : Nat} : (Place.adding job).stage busy ≤ 4 := stage_le_adding job busy
  cases h with
  | begins | copies | drops => exact ok.elim
  | finds => exact .stage (Nat.add_lt_add_right (Nat.lt_of_le_of_lt onward (by decide : 4 < 6)) _)
  | appends => exact .stage (Nat.add_lt_add_right (Nat.lt_of_le_of_lt onward (by decide : 4 < 5)) _)
  | misses => exact .stage (Nat.add_lt_add_right (Nat.lt_succ_self 5) _)
  | counts => exact .stage (Nat.add_lt_add_right Nat.zero_lt_one _)
  | splits | splitThrows | ends => exact .steps rfl rfl (by simp [Place.steps])
  | callsNull =>
    refine .stage (Nat.add_lt_add_left (Nat.add_lt_add_left ?_ _) _)
    rw [alive]
    exact Nat.zero_lt_one
  | @locks job next o there live =>
    refine .steps (congrArg (_ + ·) (hold_stage s live)) rfl ?_
    have within := (List.getElem?_eq_some_iff.mp there).1
    simp only [Place.steps]
    omega
  | completes | callsOther => exact .steps rfl rfl (by simp [completedBlock, Place.steps])
  | @releases job next o raised =>
    by_cases last : o = .scheduler ∧ s.useCount o = 1
    · refine .stage ?_
      have lower := letGo_last s last
      obtain ⟨rfl, one⟩ := last
      have place : (Place.destroying (if raised then .finish else .notify job (next + 1))).stage
          busy ≤ 3 := by
        cases busy with
        | true => exact Nat.le_add_right 1 2
        | false => exact Nat.le_refl 3
      simp only [releaseBlock, afterRelease, one, and_self, if_true]
      show _ + (s.letGo .scheduler).stage < 0 + s.stage
      omega
    · have place : afterRelease s o (if raised then .finish else .notify job (next + 1)) =
          (if raised then Back.finish else .notify job (next + 1)).place := if_neg last
      refine .steps ?_ rfl ?_
      · simp only [releaseBlock, place, Back.place_stage, letGo_stage s last]
        rfl
      · simp only [releaseBlock, place]
        cases raised <;> simp [Back.place, Place.steps]

/-- The thread manager inside does not notice where its threads stand around it. -/
theorem config_own {c : Config JobScheduler Member JobEvent} {i : Nat} {a : JobAct} {v : Member}
    {o : JobEffect Place} (here : c.threads[i]? = some v) (step : JobStep c.shared v.place a o) :
    managerPart.config ⟨o.shared, c.threads.set i (v.atPlace o.self),
      c.log ++ o.events.map (Prod.mk i)⟩ = managerPart.config c := by
  obtain ⟨_, _, impl⟩ := step.quiet
  have threads : (c.threads.set i (v.atPlace o.self)).map Member.thread =
      c.threads.map Member.thread := by
    obtain ⟨bound, there⟩ := List.getElem?_eq_some_iff.mp (managerPart.getElem?_map here)
    rw [List.map_set]
    exact (congrArg (List.set _ i) there.symm).trans (List.set_getElem_self bound)
  have entries := managerPart.filterMap_entry o.events i
  have unseen : o.events.filterMap managerPart.event = [] := step.unseen
  rw [unseen, List.map_nil] at entries
  unfold Projection.config
  rw [List.filterMap_append, entries, List.append_nil]
  simp only [managerPart, impl, threads]

theorem rank_lowers {c c' : Config JobScheduler Member JobEvent} {mv : JobMove}
    (ok : Proceeds c mv) (step : jobScheduler.Step c mv c') :
    Prod.Lex (· < ·) (Prod.Lex (· < ·) (· < ·)) (rank c') (rank c) := by
  cases mv with
  | spurious => exact ok.elim
  | run i a cs =>
    by_cases inside : ∃ a', a = .manager a'
    · obtain ⟨a', rfl⟩ := inside
      obtain ⟨v, moved⟩ := managerMove_of_step step
      exact moved.lowers
    · cases step with
      | @run _ _ _ v o ts here fires delivered =>
        obtain ⟨⟨alive, _⟩, ⟨a', same, _⟩ | ⟨_, o', own, rfl⟩⟩ := jobScheduler_block fires
        · exact absurd ⟨a', same⟩ inside
        obtain ⟨silent, childless, _⟩ := own.quiet
        simp only [Outcome.mapSelf, silent] at delivered
        obtain rfl := Option.some.inj delivered
        simp only [Outcome.mapSelf, childless, List.append_nil]
        have stage := total_set Member.stage here (v.atPlace o'.self)
        have before : v.stage = v.place.stage (v.thread.call != .none) := rfl
        have after : (v.atPlace o'.self).stage = o'.self.stage (v.thread.call != .none) := rfl
        unfold rank
        rw [config_own here own]
        dsimp only
        cases own.spends alive (v.thread.call != .none) ok with
        | stage less => exact .left _ _ (by omega)
        | steps equal lists less =>
          have steps := total_set (Member.steps c.shared.observers) here (v.atPlace o'.self)
          have fewer :
              (v.atPlace o'.self).steps c.shared.observers < v.steps c.shared.observers := less
          have same : (Manager.rank (managerPart.config c)).1 +
              total Member.stage (c.threads.set i (v.atPlace o'.self)) + o'.shared.stage =
              (Manager.rank (managerPart.config c)).1 + total Member.stage c.threads +
                c.shared.stage := by omega
          rw [same, lists]
          exact .right _ (.right _ (by omega))

theorem acc_proceeds (c : Config JobScheduler Member JobEvent) :
    Acc (jobScheduler.Follows Proceeds) c :=
  Program.acc_of_rank (Prod.lex Nat.lt_wfRel (Prod.lex Nat.lt_wfRel Nat.lt_wfRel)).wf
    (fun _ => True) rank (fun _ ok step => ⟨trivial, rank_lowers ok step⟩) trivial

/-- From any configuration the scheduler, its jobs and its thread manager come to rest, also where
jobs gain observers while they notify them; and an endless run has clients that begin
operations, copy or drop references, or spurious wakeups, again and again. -/
theorem scheduler_comes_to_rest :
    (∀ c, ∃ c', jobScheduler.Run Proceeds c c' ∧ jobScheduler.Resting Proceeds c') ∧
      ∀ visits moves, jobScheduler.Endless visits moves →
        ∀ n, ∃ m, n ≤ m ∧ ¬ Proceeds (visits m) (moves m) :=
  ⟨fun c => Program.exists_resting (acc_proceeds c), fun visits _ endless n =>
    endless.interrupted (fun m => acc_proceeds (visits m)) n⟩

end Threads.Splitter
