import Threads.Splitter.ObserverList

/-!
# Submitting a job

One call of `AddSplitterJob` by any thread: `job_list_`, the observers of the job and
`pending_job_count_` are its own, and the thread manager is what the other threads have
made of it each time a block of `Add` finds it.
-/

namespace Threads.Splitter

open Manager

/-- What a block of `thread_manager_->Add` finds when it gets `mutex_`. -/
structure Found where
  impl : Impl
  env : Surroundings
  now : Int

/-- A block of `Add` on the thread `id`: its first, or one after a wait. -/
def addTurn (id : Nat) (r : Request) (place : Call) (found : Found) :
    Loop.Turn Call (Found × Manager.Effect Call) :=
  let act : CallAct := if place = .none then .add r found.env found.now else .resumeAdd found.now
  match callBlock found.impl id place.wake act with
  | some block => if block.self = .none then .leave (found, block) else .again block.self
  | none => .undefined

/-- The exception that ends a call. -/
def thrownBy (es : List Manager.Event) : Option Exception :=
  es.findSome? fun
    | .threw _ e => some e
    | _ => none

/-- A `SplitterJobScheduler` with its `job_list_`. -/
structure ListingScheduler extends JobScheduler where
  jobList : List Nat

/-- How a call of `AddSplitterJob` ends. -/
structure Submitted where
  after : ListingScheduler
  raised : Option Exception
  /-- What the last block of `Add` has found. -/
  found : Found

/-- No value is left by a call that is in `Add` after `n` of its blocks, nor by one on a
scheduler that no `shared_ptr` owns: `shared_from_this` throws there. -/
def addSplitterJob (s : ListingScheduler) (job id : Nat) (inputs : Nat → Found) (n : Nat) :
    Option Submitted :=
  if s.live .scheduler then
    let s := { s with jobList := s.jobList ++ [job] }
    let s := { s with toJobScheduler := registerObserver s.toJobScheduler job .scheduler }
    match Loop.run (addTurn id ⟨job, 0, 0⟩) n .none inputs with
    | .left (found, block) =>
      let s := { s with impl := block.shared }
      match thrownBy block.events with
      | some e => some { after := s, raised := some e, found := found }
      | none =>
        some
          { after := { s with pendingJobCount := increment s.pendingJobCount }
            raised := none
            found := found }
    | _ => none
  else none

/-! ## All or nothing -/

/-- The job is in the queue behind what `Add` has left there, in `job_list_` once more, it
has the scheduler as observer once, and it is counted once more. -/
structure Submits (s : ListingScheduler) (job : Nat) (r : Submitted) : Prop where
  queued : ∃ waiting t, waiting <:+ r.found.impl.tasks ∧ t.runnable = job ∧
    r.after.impl.tasks = waiting ++ [t]
  listed : r.after.jobList = s.jobList ++ [job]
  observed : (r.after.observers job).count .scheduler = 1
  counted : r.after.pendingJobCount = increment s.pendingJobCount

/-- The scheduler's three records are as they were. -/
structure Unchanged (s : ListingScheduler) (job : Nat) (r : Submitted) : Prop where
  jobList : r.after.jobList = s.jobList
  observers : r.after.observers job = s.observers job
  pendingJobCount : r.after.pendingJobCount = s.pendingJobCount

def AllOrNothing (s : ListingScheduler) (job : Nat) (r : Submitted) : Prop :=
  (r.raised = none → Submits s job r) ∧ (r.raised ≠ none → Unchanged s job r)

/-- `Add` without a timeout takes a task of the thread `id`: the manager is started, no
expire callback throws, and if the queue is full the thread can sleep. -/
structure Found.Admits (found : Found) (id : Nat) : Prop where
  started : found.impl.state = .started
  calm : (found.impl.expiry found.env).raised = false
  room : (found.impl.removeExpiredTasks found.env).full → found.impl.canSleep id

/-! ## The blocks of `Add` -/

theorem thrownBy_expiryEvents (s : Impl) (env : Surroundings) (es : List Manager.Event) :
    thrownBy (s.expiryEvents env ++ es) = thrownBy es := by
  unfold thrownBy
  rw [List.findSome?_append, List.findSome?_eq_none_iff.mpr, Option.none_or]
  intro e mem
  rcases Impl.mem_expiryEvents mem with ⟨t, rfl⟩ | ⟨t, callback, rfl⟩
  · rfl
  · rfl

/-- The block puts a task of the job behind those it leaves in the queue. -/
def Pushes (job : Nat) (found : Found) (block : Manager.Effect Call) : Prop :=
  thrownBy block.events = none ∧ ∃ waiting t, waiting <:+ found.impl.tasks ∧ t.runnable = job ∧
    block.shared.tasks = waiting ++ [t]

section

variable {job id : Nat} {found : Found}

theorem addBlock_admits (h : found.Admits id) :
    (addBlock found.impl id ⟨job, 0, 0⟩ found.env found.now).self = .addParked ⟨job, 0, 0⟩ ∨
      (addBlock found.impl id ⟨job, 0, 0⟩ found.env found.now).self = .none ∧
        Pushes job found (addBlock found.impl id ⟨job, 0, 0⟩ found.env found.now) := by
  unfold addBlock
  rw [if_neg (not_not.mpr h.started)]
  dsimp only
  rw [if_neg (by rw [h.calm]; exact Bool.false_ne_true)]
  split
  · rename_i full
    left
    have sleeps : (found.impl.removeExpiredTasks found.env).canSleep id = true := h.room full
    rw [sleeps]
    rfl
  · right
    refine ⟨rfl, ?_, _, _, ⟨_, removeExpiredTasks_tasks found.impl found.env⟩, ?_, rfl⟩
    · exact thrownBy_expiryEvents _ _ _
    · rfl

theorem addBlock_refuses (h : ¬ found.Admits id) :
    (addBlock found.impl id ⟨job, 0, 0⟩ found.env found.now).self = .none ∧
      ∃ e, thrownBy (addBlock found.impl id ⟨job, 0, 0⟩ found.env found.now).events = some e := by
  unfold addBlock
  split
  · exact ⟨rfl, _, rfl⟩
  · rename_i running
    have started : found.impl.state = .started := not_not.mp running
    dsimp only
    split
    · exact ⟨rfl, _, thrownBy_expiryEvents _ _ _⟩
    · rename_i calm
      split
      · split
        · rename_i full sleeps
          have awake := (Bool.and_eq_true _ _).mp sleeps
          exact absurd ⟨started, Bool.eq_false_iff.mpr calm, fun _ => awake.1⟩ h
        · exact ⟨rfl, _, thrownBy_expiryEvents _ _ _⟩
      · rename_i room
        exact absurd ⟨started, Bool.eq_false_iff.mpr calm, fun full => absurd full room⟩ h

theorem addTurn_first (id : Nat) (r : Request) (found : Found) :
    addTurn id r .none found = .undefined ∨ addTurn id r .none found =
      if (addBlock found.impl id r found.env found.now).self = .none then
        .leave (found, addBlock found.impl id r found.env found.now)
      else .again (addBlock found.impl id r found.env found.now).self := by
  unfold addTurn
  rw [if_pos rfl]
  dsimp only [Call.wake, callBlock]
  by_cases asks : (found.impl.threadFactory || !reachesCanSleep found.impl found.env) = true
  · rw [if_pos asks]
    exact .inr rfl
  · rw [if_neg asks]
    exact .inl rfl

/-- After a wait only the bound is tested. -/
theorem addTurn_woken (id : Nat) (r : Request) (found : Found) :
    addTurn id r (.addParked r) found =
      if found.impl.full then .again (.addParked r)
      else .leave (found, pushBlock found.impl r found.now) := by
  unfold addTurn
  rw [if_neg Call.noConfusion]
  dsimp only [Call.wake, callBlock, resumeAddBlock]
  split
  · rfl
  · rfl

/-- However often a parked `Add` is woken, it ends by its push. -/
theorem run_addTurn_parked {n : Nat} {r : Request} {inputs : Nat → Found}
    {block : Manager.Effect Call}
    (h : Loop.run (addTurn id r) n (.addParked r) inputs = .left (found, block)) :
    block = pushBlock found.impl r found.now := by
  obtain ⟨k, place, running, leaves⟩ := Loop.exists_of_left h
  have parked : place = .addParked r := by
    refine Loop.invariant (fun p => p = .addParked r) rfl ?_ running
    rintro _ i next rfl again
    rw [addTurn_woken] at again
    split at again
    · exact (Loop.Turn.again.inj again).symm
    · cases again
  rw [parked, addTurn_woken] at leaves
  split at leaves
  · cases leaves
  · cases leaves
    rfl

theorem pushBlock_pushes (job : Nat) (found : Found) :
    Pushes job found (pushBlock found.impl ⟨job, 0, 0⟩ found.now) :=
  ⟨rfl, _, _, List.suffix_refl _, rfl, rfl⟩

end

/-- `Add` ends by a push if its first block admits the task, else by an exception. -/
theorem run_addTurn {job id n : Nat} {inputs : Nat → Found} {found : Found}
    {block : Manager.Effect Call}
    (h : Loop.run (addTurn id ⟨job, 0, 0⟩) n .none inputs = .left (found, block)) :
    ((inputs 0).Admits id ∧ Pushes job found block) ∨
      (¬ (inputs 0).Admits id ∧ ∃ e, thrownBy block.events = some e) := by
  cases n with
  | zero => cases h
  | succ n =>
    rcases addTurn_first id ⟨job, 0, 0⟩ (inputs 0) with undefined | first
    · rw [Loop.run_undefined undefined] at h
      cases h
    · by_cases admits : (inputs 0).Admits id
      · refine .inl ⟨admits, ?_⟩
        rcases @addBlock_admits job _ _ admits with parks | ⟨ends, pushes⟩
        · rw [parks, if_neg Call.noConfusion] at first
          rw [Loop.run_again first] at h
          rw [run_addTurn_parked h]
          exact pushBlock_pushes job found
        · rw [if_pos ends] at first
          rw [Loop.run_leave first] at h
          cases h
          exact pushes
      · refine .inr ⟨admits, ?_⟩
        obtain ⟨ends, thrown⟩ := @addBlock_refuses job _ _ admits
        rw [if_pos ends] at first
        rw [Loop.run_leave first] at h
        cases h
        exact thrown

/-! ## The call -/

/-- A job that has the scheduler as observer keeps it as often as before, any other gets it. -/
theorem count_registerObserver {s : JobScheduler} {o : Observer} (live : s.live o) (job : Nat) :
    ((registerObserver s job o).observers job).count o = max 1 ((s.observers job).count o) := by
  rcases registerObserver_cases s job o with ⟨⟨e, there, same⟩, eq⟩ | ⟨missing, eq⟩
  · rw [eq]
    rw [JobScheduler.eq_of_lock_eq same live] at there
    exact (Nat.max_eq_right (List.count_pos_iff.mpr there)).symm
  · rw [eq, setObservers_observers, List.count_append, List.count_singleton_self]
    have absent : (s.observers job).count o = 0 :=
      List.count_eq_zero.mpr fun there => missing o there rfl
    rw [absent]
    rfl

theorem pendingJobCount_registerObserver (s : JobScheduler) (job : Nat) (o : Observer) :
    (registerObserver s job o).pendingJobCount = s.pendingJobCount := by
  unfold registerObserver
  split
  · rfl
  · rfl

section

variable {s : ListingScheduler} {job id n : Nat} {inputs : Nat → Found} {r : Submitted}

/-- Whatever `Add` does, the job is in `job_list_` and has the scheduler as observer. -/
theorem addSplitterJob_kept (h : addSplitterJob s job id inputs n = some r) :
    r.after.jobList = s.jobList ++ [job] ∧
      (r.after.observers job).count .scheduler =
        max 1 ((s.observers job).count .scheduler) := by
  unfold addSplitterJob at h
  split at h
  · rename_i live
    have count := count_registerObserver live job
    dsimp only at h
    split at h
    · split at h
      · cases h
        exact ⟨rfl, count⟩
      · cases h
        exact ⟨rfl, count⟩
    · cases h
  · cases h

theorem addSplitterJob_outcome (h : addSplitterJob s job id inputs n = some r) :
    ((inputs 0).Admits id ∧ r.raised = none ∧
        (∃ waiting t, waiting <:+ r.found.impl.tasks ∧ t.runnable = job ∧
          r.after.impl.tasks = waiting ++ [t]) ∧
        r.after.pendingJobCount = increment s.pendingJobCount) ∨
      (¬ (inputs 0).Admits id ∧ r.raised ≠ none) := by
  unfold addSplitterJob at h
  split at h
  · dsimp only at h
    split at h
    · rename_i found block left
      rcases run_addTurn left with ⟨admits, quiet, pushes⟩ | ⟨refused, e, thrown⟩
      · rw [quiet] at h
        cases h
        refine .inl ⟨admits, rfl, pushes, ?_⟩
        exact congrArg increment (pendingJobCount_registerObserver _ _ _)
      · rw [thrown] at h
        cases h
        exact .inr ⟨refused, Option.some_ne_none e⟩
    · cases h
  · cases h

end

/-- A call of `AddSplitterJob` that ends is all or nothing exactly when `Add` takes the task
and the job does not have the scheduler as observer twice already: an exception of `Add`
undoes nothing. -/
theorem addSplitterJob_allOrNothing_iff (s : ListingScheduler) (job id : Nat)
    (inputs : Nat → Found) (n : Nat) (r : Submitted)
    (ends : addSplitterJob s job id inputs n = some r) :
    AllOrNothing s job r ↔
      (inputs 0).Admits id ∧ (s.observers job).count .scheduler ≤ 1 := by
  obtain ⟨listed, observed⟩ := addSplitterJob_kept ends
  rcases addSplitterJob_outcome ends with ⟨admits, returned, queued, counted⟩ | ⟨refused, raised⟩
  · constructor
    · intro all
      refine ⟨admits, ?_⟩
      have once := (all.1 returned).observed
      rw [observed] at once
      exact once ▸ Nat.le_max_right _ _
    · rintro ⟨-, once⟩
      refine ⟨fun _ => ⟨queued, listed, ?_, counted⟩, fun raised => absurd returned raised⟩
      rw [observed]
      exact Nat.max_eq_left once
  · constructor
    · intro all
      have same := (all.2 raised).jobList
      rw [listed] at same
      exact absurd (List.append_right_eq_self.mp same) (List.cons_ne_nil _ _)
    · rintro ⟨admits, -⟩
      exact absurd admits refused

/-- A scheduler that has no job, and whose manager is in this state. -/
def emptyScheduler (state : State) : ListingScheduler where
  impl := { state := state, threadFactory := true }
  numWorkers := 1
  pendingJobMaxCount := 1
  observers _ := []
  useCount _ := 1
  clientRefs _ := 1
  jobList := []

/-- Nobody changes the manager during the call. -/
def undisturbed (s : ListingScheduler) (_ : Nat) : Found := ⟨s.impl, ⟨fun _ => 0, none⟩, 0⟩

theorem addSplitterJob_started :
    ∃ r, addSplitterJob (emptyScheduler .started) 5 1 (undisturbed (emptyScheduler .started)) 1 =
        some r ∧ AllOrNothing (emptyScheduler .started) 5 r := by
  refine ⟨_, rfl, (addSplitterJob_allOrNothing_iff (emptyScheduler .started) 5 1
    (undisturbed (emptyScheduler .started)) 1 _ rfl).mpr ⟨?_, Nat.zero_le 1⟩⟩
  exact ⟨rfl, rfl, fun _ => rfl⟩

/-- The one worker splits job 4, and job 6 fills the queue. -/
def fullScheduler : ListingScheduler where
  impl :=
    { workerCount := 1
      workerMaxCount := 1
      pendingTaskCountMax := 1
      state := .started
      threadFactory := true
      tasks := [{ id := 1, runnable := 6 }]
      workers := [0]
      idMap := [⟨0, 1⟩]
      taskAllocs := 2
      threadAllocs := 1 }
  numWorkers := 1
  pendingJobMaxCount := 1
  pendingJobCount := 2
  observers job := if job = 4 ∨ job = 6 then [.scheduler] else []
  useCount _ := 1
  clientRefs _ := 1
  jobList := [4, 6]

/-- The worker adds job 5 while it splits job 4, and `Add` refuses it, since a worker cannot wait
for room: `job_list_` keeps it. -/
theorem addSplitterJob_tooMany :
    ∃ r, addSplitterJob fullScheduler 5 1 (undisturbed fullScheduler) 1 = some r ∧
        r.raised = some .tooManyPendingTasks ∧ ¬ AllOrNothing fullScheduler 5 r := by
  refine ⟨_, rfl, rfl, ?_⟩
  intro all
  have same := (all.2 (Option.some_ne_none _)).jobList
  cases same

end Threads.Splitter
