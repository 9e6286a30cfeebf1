import Threads.Manager.Wakeups

/-!
# `TotalTaskCount`

The queued tasks and the workers that are not idle. `idle_count_` is one unit for each
worker between its increment and its decrement, so the subtraction never wraps.
-/

namespace Threads.Manager

open Concurrency

/-- `a - b` of two `size_t`s. -/
def difference (a b : Nat) : Nat := if b ≤ a then a - b else 2 ^ 64 + a - b

def Impl.totalTaskCount (s : Impl) : Nat := difference (s.tasks.length + s.workerCount) s.idleCount

/-- One for a worker that has taken a task from the queue and is not done with it. -/
def executing : Worker → Nat
  | .holding _ | .running _ => 1
  | _ => 0

/-- One for an activated worker that is not idle. -/
def busy : Worker → Nat
  | .announce | .loop | .holding _ | .running _ | .leaving true | .escaped => 1
  | _ => 0

theorem idle_add_busy (w : Worker) : idle w + busy w = activated w := by
  cases w with
  | leaving activated => cases activated <;> rfl
  | _ => rfl

theorem executing_le_busy (w : Worker) : executing w ≤ busy w := by
  cases w with
  | holding | running => exact Nat.le_refl 1
  | _ => exact Nat.zero_le _

section

variable {c : Config Impl Thread Event}

theorem PoolAccount.workers (h : PoolAccount c) :
    c.shared.workerCount = c.shared.idleCount + total (onWorker busy) c.threads := by
  have counts := h.counts
  unfold CountsActivated at counts
  calc c.shared.workerCount
      = total (onWorker activated) c.threads := counts
    _ = total (fun t => onWorker Manager.idle t + onWorker busy t) c.threads := by
        congr 1
        funext t
        exact (idle_add_busy t.worker).symm
    _ = c.shared.idleCount + total (onWorker busy) c.threads := by
        rw [total_add, h.idle]

theorem PoolAccount.totalTaskCount (h : PoolAccount c) :
    c.shared.totalTaskCount = c.shared.tasks.length + total (onWorker busy) c.threads := by
  have workers := h.workers
  unfold Impl.totalTaskCount difference
  rw [if_pos (by omega)]
  omega

end

/-- While the calls that change the size of the pool take turns, `TotalTaskCount` counts
every task that is queued or being executed, and no more than a task for each worker
beside the queue. -/
theorem totalTaskCount_bounds (clients : List Nat) (c : Config Impl Thread Event)
    (run : threadManager.Run InTurn (fresh clients) c) :
    c.shared.idleCount = total (onWorker idle) c.threads ∧
      c.shared.idleCount ≤ c.shared.workerCount ∧
      c.shared.tasks.length + total (onWorker executing) c.threads ≤ c.shared.totalTaskCount ∧
      c.shared.totalTaskCount ≤ c.shared.tasks.length + c.shared.workerCount := by
  have h := poolAccount_of_run run
  have workers := h.workers
  have count := h.totalTaskCount
  have some : total (onWorker executing) c.threads ≤ total (onWorker busy) c.threads :=
    total_mono fun t _ => executing_le_busy t.worker
  refine ⟨h.idle, ?_, ?_, ?_⟩
  · rw [workers]
    exact Nat.le_add_right _ _
  · rw [count]
    exact Nat.add_le_add_left some _
  · omega

/-- A worker is parked and another has just begun; `Add` has queued a task. -/
theorem totalTaskCount_parkAndAdd : ∃ c, threadManager.Run InTurn (fresh [1, 2]) c ∧
    c.shared.workerCount = 2 ∧ c.shared.idleCount = 1 ∧
    c.shared.tasks.length + total (onWorker executing) c.threads ≤ c.shared.totalTaskCount ∧
    c.shared.totalTaskCount ≤ c.shared.tasks.length + c.shared.workerCount := by
  obtain ⟨c, run, workers, idle⟩ := threadManager.exists_run InTurn (fresh [1, 2])
    (fun c => c.shared.workerCount = 2 ∧ c.shared.idleCount = 1) parkAndAdd (by decide)
  obtain ⟨-, -, bounds⟩ := totalTaskCount_bounds [1, 2] c run
  exact ⟨c, run, workers, idle, bounds⟩

end Threads.Manager
