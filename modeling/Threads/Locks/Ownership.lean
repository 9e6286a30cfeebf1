import Threads.Concurrency.Discipline
import Threads.Locks.Operations

/-!
# Who owns the mutexes

Every operation waits in the scope of a guard, except `WaitAllJobDone`. A client
that comes back from the wait there owns the mutex of the scheduler's `monitor_`,
and no scope will release it.
-/

namespace Threads.Locks

open Concurrency

abbrev Process := Config (Locks Mutex Data) procedures.Thread (Op × Bool)

/-- The loop of `WaitAllJobDone` is the only one that waits outside any guard. -/
def Bare (p : Data → Local → Bool) (k : Cond) : Prop := p = jobsPending ∧ k = .jobMonitor

theorem operation_checked {op : Op} (other : op ≠ .waitAllJobDone) :
    procedures.checked (fun m => m != .scheduler) [] (operation op) = true := by
  cases op <;> first | rfl | exact absurd rfl other

theorem wellScoped : procedures.WellScoped Bare := by
  intro op held outside
  by_cases waits : op = .waitAllJobDone
  · subst waits
    exact .bareLoop ⟨rfl, rfl⟩ (outside _ _ ⟨rfl, rfl⟩)
  · have inGuards := operation_checked waits
    refine Procedures.scoped_of_checked ?_ outside inGuards
    rintro p k ⟨-, rfl⟩
    rfl

/-- Threads that have not called anything, in a process with a new manager. -/
def idle (n : Nat) : Process := procedures.idle {} {} n

/-- Every thread about to wait owns the mutex, and every call about to end leaves its
thread the mutexes it owned when it began. -/
def Disciplined (c : Process) : Prop := ∀ t ∈ c.threads, procedures.Disciplined t

/-- A thread that tests `pending_job_count_` in `WaitAllJobDone`, without the mutex of
`monitor_`, finds it zero. -/
def FindsZero (s : Data) : procedures.Thread → LockAct Env Op → Prop
  | ⟨.run (.loop _ (.wait .jobMonitor)) :: _, false, held, .awake, _⟩, .go _ =>
    .scheduler ∈ held ∨ s.pendingJobCount = 0
  | _, _ => True

/-- No step takes a thread into the wait of `WaitAllJobDone`. -/
def TestsZero (c : Process) : Move (LockAct Env Op) → Prop
  | .run i a _ => ∀ t ∈ c.threads[i]?, FindsZero c.shared.data t a
  | .spurious _ => True

instance (s : Data) (t : procedures.Thread) (a : LockAct Env Op) : Decidable (FindsZero s t a) := by
  unfold FindsZero
  split <;> infer_instance

instance (c : Process) (mv : Move (LockAct Env Op)) : Decidable (TestsZero c mv) := by
  unfold TestsZero
  split <;> infer_instance

theorem jobsPending_eq_false {d : Data} {l : Local} :
    jobsPending d l = false ↔ d.pendingJobCount = 0 := by
  simp [jobsPending]

theorem findsZero_iff {s : Locks Mutex Data} {t : procedures.Thread} {a : LockAct Env Op}
    (h : procedures.Sound Bare t) : FindsZero s.data t a ↔ procedures.PassesBare s t a := by
  unfold Procedures.PassesBare
  split
  · rename_i p k fs held l e
    cases h.balanced.top.1 with
    | loop inGuard =>
      cases inGuard with
      | wait owned =>
        refine iff_of_true ?_ (.inl owned)
        cases k <;> first | trivial | exact .inl owned
    | bareLoop known =>
      obtain ⟨rfl, rfl⟩ := known
      exact or_congr Iff.rfl jobsPending_eq_false.symm
  · rename_i other
    refine iff_of_true ?_ trivial
    unfold FindsZero
    split
    · exact absurd rfl (other _ _ _ _ _ _ rfl)
    · trivial

theorem passes_iff {c : Process} {mv : Move (LockAct Env Op)}
    (h : Procedures.SoundAll (P := procedures) Bare c) :
    TestsZero c mv ↔ Procedures.Passes (P := procedures) c mv := by
  cases mv with
  | spurious => exact Iff.rfl
  | run i a =>
    exact forall₂_congr fun t here => findsZero_iff (h.sound t (List.mem_of_getElem? here))

/-- The lock discipline holds all along a run exactly if no `WaitAllJobDone` finds jobs
pending; and in such a run every mutex is free when no call is in progress. -/
theorem lock_discipline (n : Nat) (mvs : List (Move (LockAct Env Op))) :
    (procedures.program.Throughout Disciplined (idle n) mvs ↔
      procedures.program.EachStep TestsZero (idle n) mvs) ∧
    ∀ c, procedures.program.Run TestsZero (idle n) c → (∀ t ∈ c.threads, t.frames = []) →
      c.shared.locked = [] := by
  have keeps {c c' : Process} {mv : Move (LockAct Env Op)}
      (h : Procedures.SoundAll (P := procedures) Bare c) (ok : TestsZero c mv)
      (step : procedures.program.Step c mv c') : Procedures.SoundAll (P := procedures) Bare c' :=
    Procedures.soundAll_step wellScoped h ((passes_iff h).mp ok) step
  have init : Procedures.SoundAll (P := procedures) Bare (idle n) := Procedures.soundAll_idle _ _ n
  refine ⟨Program.throughout_iff (fun h t ht => (h.sound t ht).disciplined) keeps ?_ init mvs, ?_⟩
  · intro c mv c' h bad step disciplined
    obtain ⟨t, ht, breaks⟩ := Procedures.bare_wait_undisciplined (mt (passes_iff h).mpr bad) step
    exact breaks (disciplined t ht)
  · intro c run finished
    have sound := run.invariant init keeps
    exact sound.unlocked finished

/-- The next `n` statements of a thread; what it notifies is thread `other`. -/
def statements (i n other : Nat) (e : Env) : List (Move (LockAct Env Op)) :=
  List.replicate n (.run i (.go e) [other])

/-- A client whose `Add` throws, since nothing has been started, finds no job to wait for. -/
def addAndWaitUnstarted : List (Move (LockAct Env Op)) :=
  .run 0 (.call (.add { value := 5 })) [] :: statements 0 9 1 {} ++
  .run 0 (.call .waitAllJobDone) [] :: statements 0 2 1 {}

theorem lock_discipline_addAndWaitUnstarted :
    procedures.program.Throughout Disciplined (idle 1) addAndWaitUnstarted ∧
      ∃ c : Process, c.log = [(0, .add { value := 5 }, true), (0, .waitAllJobDone, false)] ∧
        c.shared.locked = [] := by
  obtain ⟨disciplined, unlocked⟩ := lock_discipline 1 addAndWaitUnstarted
  obtain ⟨c, run, log, finished⟩ := procedures.program.exists_run TestsZero (idle 1)
    (fun c => c.log = [(0, .add { value := 5 }, true), (0, .waitAllJobDone, false)] ∧
      ∀ t ∈ c.threads, t.frames.isEmpty = true) addAndWaitUnstarted (by decide +kernel)
  refine ⟨disciplined.mpr (by decide +kernel), c, log, unlocked c run fun t ht => ?_⟩
  exact List.isEmpty_iff.mp (finished t ht)

/-- A client makes a scheduler with one worker, adds a job and waits for it. -/
def waitForJob : List (Move (LockAct Env Op)) :=
  .run 0 (.call (.newScheduler 1 0)) [] :: statements 0 68 1 { created := some 7 } ++
  statements 1 38 0 {} ++ statements 0 8 1 {} ++
  .run 0 (.call (.addSplitterJob 5)) [] :: statements 0 33 1 {} ++
  .run 0 (.call .waitAllJobDone) [] :: statements 0 2 1 {} ++ statements 1 43 0 {} ++
  .run 1 (.call .onCompletedJob) [] :: statements 1 8 0 {} ++ statements 0 3 1 {}

/-- Back from `WaitAllJobDone`, the client owns the mutex of `monitor_`. -/
theorem waitAllJobDone_keeps_mutex : ∃ c, procedures.program.Reach (idle 1) c ∧
    (0, .waitAllJobDone, false) ∈ c.log ∧ Mutex.scheduler ∈ c.shared.locked ∧
    (c.threads.head?.any fun t => t.frames.isEmpty && decide (t.held = [Mutex.scheduler])) = true :=
  procedures.program.exists_reach _ _ waitForJob (by decide +kernel)

end Threads.Locks
