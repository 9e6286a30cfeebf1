import Threads.Splitter.Scheduler

/-!
# `pending_job_count_`

A job is handed to the thread manager first and counted afterwards. In between,
`pending_job_count_` is short by one; a worker may complete the job in the gap.
-/

namespace Threads.Splitter

open Concurrency

def Event.isHanded : Event → Bool
  | .handed _ => true
  | _ => false

def Event.isCompleted : Event → Bool
  | .completed _ => true
  | _ => false

def handedCount (c : Config Scheduler Role Event) : Nat :=
  c.log.countP fun e => e.2.isHanded

def completedCount (c : Config Scheduler Role Event) : Nat :=
  c.log.countP fun e => e.2.isCompleted

/-- The jobs pushed onto the queue whose `OnCompletedJob` has not run. -/
def outstanding (c : Config Scheduler Role Event) : Nat := handedCount c - completedCount c

def splitting : Role → Nat
  | .splitting _ => 1
  | _ => 0

/-- One for a client between `thread_manager_->Add(job)` and its increment. -/
def inGap : Role → Nat
  | .handed _ => 1
  | _ => 0

/-- The jobs handed over and not yet counted. -/
def uncounted (c : Config Scheduler Role Event) : Nat := total inGap c.threads

theorem stable_splitting : scheduler.Stable splitting := fun r _ => by cases r <;> rfl

theorem stable_inGap : scheduler.Stable inGap := fun r _ => by cases r <;> rfl

/-- Every job handed over is queued, with a worker, or completed, and the counter
misses those in the gap. -/
structure Counts (c : Config Scheduler Role Event) : Prop where
  jobs : completedCount c + c.shared.jobs.queue.length + total splitting c.threads = handedCount c
  counter : asSize (c.shared.pendingJobCount + uncounted c + completedCount c) =
    asSize (handedCount c)
  bounded : c.shared.pendingJobCount < 2 ^ 64

/-- No step loses a job or makes one up. -/
theorem RoleStep.keeps_jobs {s : Scheduler} {r : Role} {a : Act} {o : Effect}
    (h : RoleStep s r a o) :
    o.events.countP Event.isCompleted + o.shared.jobs.queue.length + splitting o.self =
      o.events.countP Event.isHanded + s.jobs.queue.length + splitting r := by
  cases h with
  | hands =>
    simp [Event.isHanded, Event.isCompleted, splitting]
    omega
  | takes queue => simp [queue, splitting]
  | completes =>
    simp [Event.isHanded, Event.isCompleted, splitting]
    omega
  | returns => simp [Event.isHanded, Event.isCompleted, splitting]
  | _ => simp [splitting]

/-- A step moves the counter, the gap and the number of completed jobs together. -/
theorem RoleStep.keeps_counter {s : Scheduler} {r : Role} {a : Act} {o : Effect}
    (h : RoleStep s r a o) (k : Nat) :
    asSize (o.shared.pendingJobCount + (inGap o.self + o.events.countP Event.isCompleted + k)) =
      asSize (s.pendingJobCount + (inGap r + o.events.countP Event.isHanded + k)) := by
  cases h with
  | hands => rfl
  | counts =>
    have := asSize_increment s.pendingJobCount k
    simpa [inGap, Nat.add_assoc] using this
  | completes =>
    have := asSize_decrement s.pendingJobCount k
    simpa [inGap, Event.isHanded, Event.isCompleted, Nat.add_assoc] using this
  | _ => rfl

theorem RoleStep.bounded {s : Scheduler} {r : Role} {a : Act} {o : Effect} (h : RoleStep s r a o)
    (bound : s.pendingJobCount < 2 ^ 64) : o.shared.pendingJobCount < 2 ^ 64 := by
  cases h with
  | counts => exact increment_lt bound
  | completes => exact decrement_lt bound
  | _ => exact bound

/-- Counting events of the log, a step adds those of its block. -/
theorem countP_log (log : List (Nat × Event)) (i : Nat) (es : List Event) (p : Event → Bool) :
    (log ++ es.map (Prod.mk i)).countP (fun e => p e.2) =
      log.countP (fun e => p e.2) + es.countP p := by
  rw [List.countP_append, List.countP_map]
  rfl

theorem counts_step {c c' : Config Scheduler Role Event} {mv : Move Act} (h : Counts c)
    (step : scheduler.Step c mv c') : Counts c' := by
  obtain ⟨jobs, counter, bounded⟩ := h
  cases step with
  | spurious here waits =>
    have gap := scheduler.total_spurious stable_inGap here waits
    have split := scheduler.total_spurious stable_splitting here waits
    refine ⟨?_, ?_, bounded⟩
    · rw [← split] at jobs
      exact jobs
    · unfold uncounted at counter
      rw [← gap] at counter
      exact counter
  | @run i a cs r o ts here fires delivered =>
    have role := roleStep_of_block fires
    have woken := scheduler.deliver_woken delivered
    have gap := scheduler.total_run stable_inGap woken here o.self o.spawned
    have split := scheduler.total_run stable_splitting woken here o.self o.spawned
    have moved := role.keeps_jobs
    have counted := role.keeps_counter
      (total inGap c.threads - inGap r + completedCount c)
    have present := le_total_of_getElem? inGap here
    rw [role.spawns_nothing] at gap split ⊢
    simp only [total_nil, Nat.add_zero] at gap split
    refine ⟨?_, ?_, role.bounded bounded⟩
    · dsimp only [handedCount, completedCount] at jobs ⊢
      rw [countP_log, countP_log]
      omega
    · dsimp only [handedCount, completedCount, uncounted, asSize] at counter counted ⊢
      rw [countP_log, countP_log]
      omega

theorem counts_fresh (workers clients : Nat) : Counts (fresh workers clients) where
  jobs := by rw [total_fresh workers clients rfl rfl]; rfl
  counter := by rw [uncounted, total_fresh workers clients rfl rfl]; rfl
  bounded := Nat.two_pow_pos 64

theorem counts_of_reach {workers clients : Nat} {c : Config Scheduler Role Event}
    (reach : scheduler.Reach (fresh workers clients) c) : Counts c :=
  reach.invariant (counts_fresh workers clients) fun h _ => counts_step h

/-- The counter is the number of outstanding jobs exactly when nothing is in the gap. -/
theorem Counts.truthful_iff {c : Config Scheduler Role Event} (h : Counts c) :
    c.shared.pendingJobCount = asSize (outstanding c) ↔ asSize (uncounted c) = 0 := by
  obtain ⟨jobs, counter, bounded⟩ := h
  unfold outstanding asSize at *
  omega

/-- A completion belongs to an outstanding job. -/
theorem Counts.outstanding_pos {c : Config Scheduler Role Event} (h : Counts c) {i job : Nat}
    (here : c.threads[i]? = some (.splitting job)) : 0 < outstanding c := by
  have jobs := h.jobs
  have present := le_total_of_getElem? splitting here
  change 1 ≤ _ at present
  unfold outstanding
  omega

/-- A client adds a job, which a worker completes, and then waits for it. -/
def addAndWait : List (Move Act) :=
  [.run 1 .addSplitterJob [], .run 1 .add [], .run 1 .count [], .run 0 .take [],
    .run 0 .onCompletedJob [], .run 1 .waitAllJobDone []]

/-- The worker completes the job before the client has counted it. -/
def completeFirst : List (Move Act) :=
  [.run 1 .addSplitterJob [], .run 1 .add [], .run 0 .take [], .run 0 .onCompletedJob []]

end Threads.Splitter
