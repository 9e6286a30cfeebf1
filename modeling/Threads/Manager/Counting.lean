import Threads.Manager.System

/-!
# `worker_count_`

The entry block and the exit block of `Worker::Run` count a worker in and out. A
worker that the entry block refused is not counted in, but its exit block counts
it out all the same.
-/

namespace Threads.Manager

open Concurrency

/-- One for a worker between its activating increment and its exit block. -/
def activated : Worker → Nat
  | .absent | .entry | .leaving false | .finished => 0
  | _ => 1

instance : Steady activated := ⟨fun w => by cases w <;> rfl⟩

/-- `worker_count_` is the number of activated workers. -/
def CountsActivated (c : Config Impl Thread Event) : Prop :=
  c.shared.workerCount = total (onWorker activated) c.threads

/-- The step is no exit block of a worker that was refused on entry. -/
def ExitsActivated (c : Config Impl Thread Event) : Move Act → Prop
  | .run i (.worker .exit) _ => (c.threads[i]?).map Thread.worker ≠ some (.leaving false)
  | _ => True

instance (c : Config Impl Thread Event) (mv : Move Act) : Decidable (ExitsActivated c mv) := by
  unfold ExitsActivated
  split <;> infer_instance

theorem activated_workBlock (s : Impl) (env : Surroundings) :
    activated (workBlock s env).self = 1 := by
  rcases workBlock_self s env with h | ⟨t, h⟩ | h <;> rw [h] <;> rfl

/-- Before its exit block, no step moves a worker's count away from its place. -/
theorem WorkerStep.counts_activated {s : Impl} {ref : ThreadRef} {w : Worker} {a : WorkerAct}
    {o : Effect Worker} (h : WorkerStep s ref w a o) (inside : a ≠ .exit) :
    o.shared.workerCount + activated w = s.workerCount + activated o.self := by
  cases h with
  | enters room =>
    dsimp only
    split <;> rfl
  | works | wakesAndWorks =>
    rw [activated_workBlock, workBlock_workerCount]
    rfl
  | exited => exact absurd rfl inside
  | _ => rfl

theorem countsActivated_step {c c' : Config Impl Thread Event} {mv : Move Act}
    (h : CountsActivated c) (ok : ExitsActivated c mv) (change : Change c mv c') :
    CountsActivated c' := by
  unfold CountsActivated at h ⊢
  cases change with
  | spurious here waits =>
    exact h.trans (total_worker_spurious activated here waits).symm
  | @worker i a cs t w o ts alive here idle place step delivered =>
    have moved := total_worker activated (threadManager.deliver_woken delivered) here idle o.self
    have present := le_total_of_getElem? (onWorker activated) here
    rw [place] at moved
    by_cases exits : a = .exit
    · subst exits
      cases step with
      | @exited act =>
        cases act with
        | false => simp [ExitsActivated, here, place] at ok
        | true =>
          have counted : onWorker activated t = 1 := by simp [onWorker, place, activated]
          have positive : 0 < c.shared.workerCount := by omega
          simp only [exitBlock, activated, decrement_of_pos positive] at moved ⊢
          omega
    · have counts := step.counts_activated exits
      dsimp only
      omega
  | @call i a cs t d o ts alive here makesCalls place step delivered =>
    have moved := step.keeps_workers activated rfl (threadManager.deliver_woken delivered) here
      makesCalls
    have counts := step.counts.1
    dsimp only
    omega

/-- The exit block of a refused worker takes away a count that was never added. -/
theorem refused_exit_miscounts {c c' : Config Impl Thread Event} {mv : Move Act}
    (h : CountsActivated c) (bad : ¬ ExitsActivated c mv) (change : Change c mv c') :
    ¬ CountsActivated c' := by
  unfold CountsActivated at h ⊢
  unfold ExitsActivated at bad
  split at bad
  · cases change with
    | @worker _ _ _ t w o ts alive here idle place step delivered =>
      have moved := total_worker activated (threadManager.deliver_woken delivered) here idle o.self
      simp only [here, Option.map_some, place, ne_eq, Option.some.injEq, not_not] at bad
      subst bad
      cases step with
      | exited =>
        rw [place] at moved
        simp only [exitBlock, activated, decrement] at moved ⊢
        split <;> omega
  · exact absurd trivial bad

theorem countsActivated_fresh (clients : List Nat) : CountsActivated (fresh clients) :=
  (total_fresh clients fun _ => rfl).symm

/-- `worker_count_` counts the activated workers all along a run exactly if no
refused worker runs its exit block in it; and in such a run an exit block never
decrements a count of zero. -/
theorem worker_count_exact (clients : List Nat) (mvs : List (Move Act)) :
    (threadManager.Throughout CountsActivated (fresh clients) mvs ↔
      threadManager.EachStep ExitsActivated (fresh clients) mvs) ∧
    ∀ c i cs c', threadManager.Run ExitsActivated (fresh clients) c →
      ExitsActivated c (.run i (.worker .exit) cs) →
      threadManager.Step c (.run i (.worker .exit) cs) c' →
      c'.shared.workerCount + 1 = c.shared.workerCount := by
  have keeps {c c' : Config Impl Thread Event} {mv : Move Act} (h : CountsActivated c)
      (ok : ExitsActivated c mv) (step : threadManager.Step c mv c') : CountsActivated c' :=
    countsActivated_step h ok (change_of_step step)
  refine ⟨Program.throughout_iff id keeps
    (fun h bad step => refused_exit_miscounts h bad (change_of_step step))
    (countsActivated_fresh clients) mvs, ?_⟩
  intro c i cs c' run ok step
  have counts := run.invariant (countsActivated_fresh clients) keeps
  have change := change_of_step step
  clear step
  unfold CountsActivated at counts
  cases change with
  | @worker _ _ _ t w o ts alive here idle place step delivered =>
    have present := le_total_of_getElem? (onWorker activated) here
    cases step with
    | @exited act =>
      cases act with
      | false => simp [ExitsActivated, here, place] at ok
      | true =>
        have counted : onWorker activated t = 1 := by simp [onWorker, place, activated]
        have positive : 0 < c.shared.workerCount := by omega
        simp only [exitBlock, decrement_of_pos positive]
        omega

instance : DecidablePred CountsActivated := fun _ => inferInstanceAs (Decidable (_ = _))

/-- A pool of one worker grows and shrinks again. -/
def resizeInTurn : List (Move Act) :=
  [.run 0 (.call (.setThreadFactory true)) [], .run 0 (.call (.addWorker 1)) [],
    .run 0 (.call .newThreads) [], .run 0 (.call .raise) [],
    .run 0 (.call (.startThread (some 7))) [], .run 1 (.worker .enter) [],
    .run 1 (.worker .announce) [], .run 0 (.call .register) [], .run 0 (.call .awaitAdded) [],
    .run 0 (.call (.removeWorker 1)) [], .run 0 (.call .lower) [],
    .run 1 (.worker (.iterate ⟨fun _ => 0, none⟩)) []]

theorem worker_count_exact_resizeInTurn :
    threadManager.Throughout CountsActivated (fresh [1]) resizeInTurn ∧
      ∃ c c', threadManager.Step c (.run 1 (.worker .exit) []) c' ∧
        c'.shared.workerCount + 1 = c.shared.workerCount := by
  obtain ⟨c, run, c', step, ok⟩ : ∃ c, threadManager.Run ExitsActivated (fresh [1]) c ∧
      ∃ c', threadManager.Step c (.run 1 (.worker .exit) []) c' ∧
        ExitsActivated c (.run 1 (.worker .exit) []) := by
    obtain ⟨c, run, next, ok⟩ := threadManager.exists_run ExitsActivated (fresh [1])
      (fun c => (threadManager.step c (.run 1 (.worker .exit) [])).isSome ∧
        ExitsActivated c (.run 1 (.worker .exit) [])) resizeInTurn (by decide)
    obtain ⟨c', step⟩ := Option.isSome_iff_exists.mp next
    exact ⟨c, run, c', threadManager.step_iff.mp step, ok⟩
  obtain ⟨exact, noWrap⟩ := worker_count_exact [1] resizeInTurn
  exact ⟨exact.mpr (by decide), c, c', step, noWrap c 1 [] c' run ok step⟩

/-- `RemoveWorker(1)` lowers the limit between the creation of a worker and its
first step; the worker is refused, and its exit block wraps the count. -/
def resizeOverlap : List (Move Act) :=
  [.run 0 (.call (.setThreadFactory true)) [], .run 0 (.call (.addWorker 1)) [],
    .run 0 (.call .newThreads) [], .run 0 (.call .raise) [],
    .run 1 (.call (.removeWorker 1)) [], .run 1 (.call .lower) [],
    .run 0 (.call (.startThread (some 7))) [], .run 2 (.worker .enter) [],
    .run 2 (.worker .exit) []]

theorem refused_worker_miscounts : ∃ c, threadManager.Reach (fresh [1, 2]) c ∧
    c.shared.workerCount = 2 ^ 64 - 1 ∧ ¬ CountsActivated c :=
  threadManager.exists_reach _ _ resizeOverlap (by decide)

end Threads.Manager
