import Mathlib.Data.List.TakeWhile
import Threads.Checked
import Threads.Manager.Accounting

/-!
# What an expiry pass removes

The clock is read at the first task that can expire, and that reading, unless it is 0,
serves the whole pass. The expire time of a task is a 64-bit sum, and 0 means never.
-/

namespace Threads.Manager

open Concurrency Checked

/-! ## The pass -/

section Pass

variable {callback : Bool} {env : Surroundings}

/-- A pass whose reading is not 0 removes the tasks that are expired at that reading, up to the
first that is not. -/
theorem expirePass_eq {now : Int} (real : now ≠ 0) {i : Nat} {start : Int}
    (reads : env.now i start = now) {ts : List Task}
    (calm : (expirePass callback env i start ts).raised = false) :
    (expirePass callback env i start ts).expired = ts.takeWhile (fun t => t.expiredAt now) ∧
      (expirePass callback env i start ts).rest = ts.dropWhile (fun t => t.expiredAt now) := by
  induction ts generalizing i start with
  | nil => exact ⟨rfl, rfl⟩
  | cons t ts ih =>
    have keeps : env.now (i + 1) now = now := if_neg real
    unfold expirePass at calm ⊢
    rw [reads] at calm ⊢
    by_cases never : t.expireTime = 0
    · have spared : t.expiredAt now = false := by simp [Task.expiredAt, never]
      rw [if_pos never, List.takeWhile_cons, List.dropWhile_cons, spared]
      exact ⟨rfl, rfl⟩
    · rw [if_neg never] at calm ⊢
      by_cases later : t.expireTime > now
      · have spared : t.expiredAt now = false := by
          simp [Task.expiredAt, Int.not_le.mpr later]
        rw [if_pos later, List.takeWhile_cons, List.dropWhile_cons, spared]
        exact ⟨rfl, rfl⟩
      · have expired : t.expiredAt now = true := by
          simp [Task.expiredAt, never, Int.not_lt.mp later]
        rw [if_neg later] at calm ⊢
        rw [List.takeWhile_cons, List.dropWhile_cons, expired]
        split at calm
        · cases calm
        · obtain ⟨removed, rest⟩ := ih keeps calm
          rw [if_neg ‹_›]
          exact ⟨congrArg (t :: ·) removed, rest⟩

/-- Whatever the clock shows, the tasks a pass removes were expired at some reading of it. -/
theorem expirePass_expired {i : Nat} {start : Int} (source : start = 0 ∨ ∃ k, start = env.clock k)
    {ts : List Task} {t : Task} (mem : t ∈ (expirePass callback env i start ts).expired) :
    ∃ k, t.expiredAt (env.clock k) = true := by
  induction ts generalizing i start with
  | nil => cases mem
  | cons u ts ih =>
    have read : ∃ k, env.now i start = env.clock k := by
      unfold Surroundings.now
      split
      · exact ⟨i, rfl⟩
      · exact source.resolve_left ‹_›
    unfold expirePass at mem
    split at mem
    · cases mem
    · split at mem
      · cases mem
      · split at mem
        · cases mem
        · rcases List.mem_cons.mp mem with rfl | mem
          · obtain ⟨k, eq⟩ := read
            have due : t.expireTime ≤ env.clock k := eq ▸ Int.not_lt.mp ‹_›
            exact ⟨k, by simp [Task.expiredAt, *]⟩
          · exact ih (.inr read) mem

end Pass

namespace Impl

variable {s : Impl} {env : Surroundings}

theorem expiry_eq (real : env.clock 0 ≠ 0) (calm : (s.expiry env).raised = false) :
    (s.expiry env).expired = s.tasks.takeWhile (fun t => t.expiredAt (env.clock 0)) ∧
      (s.expiry env).rest = s.tasks.dropWhile (fun t => t.expiredAt (env.clock 0)) :=
  expirePass_eq real (if_pos rfl) calm

theorem expiry_expired {t : Task} (mem : t ∈ (s.expiry env).expired) :
    ∃ k, t.expiredAt (env.clock k) = true :=
  expirePass_expired (.inl rfl) mem

theorem expiryEvents_eq (calm : (s.expiry env).raised = false) :
    s.expiryEvents env = (s.expiry env).expired.flatMap (fun t =>
      if s.expireCallback then [.calledBack t.id, .expired t.id true]
      else [.expired t.id false]) := by
  unfold expiryEvents
  rw [calm]
  exact List.append_nil _

end Impl

/-! ## The task a worker dequeues -/

@[simp] theorem Task.begin_expiredAt (t : Task) (now : Int) :
    t.begin.expiredAt now = t.expiredAt now := by
  unfold Task.begin
  split <;> rfl

/-- What a worker holds after an iteration was the head of what the pass had left. -/
theorem workBlock_holds {s : Impl} {env : Surroundings} {t : Task}
    (holds : (workBlock s env).self = .holding t) : (s.expiry env).raised = false ∧
      ∃ u, (s.expiry env).rest = u :: (workBlock s env).shared.tasks ∧ t = u.begin := by
  unfold workBlock at holds ⊢
  dsimp only at holds ⊢
  split at holds
  · cases holds
  · rename_i calm
    rw [if_neg calm]
    split at holds
    · cases holds
    · rename_i u us queue
      exact ⟨by simpa using calm, u, queue, (Worker.holding.inj holds).symm⟩

theorem WorkerStep.holds {s : Impl} {ref : ThreadRef} {w : Worker} {a : WorkerAct}
    {o : Effect Worker} (h : WorkerStep s ref w a o) {env : Surroundings}
    (looks : a = .iterate env ∨ a = .resume env) {t : Task} (holds : o.self = .holding t) :
    (s.expiry env).raised = false ∧
      ∃ u, (s.expiry env).rest = u :: o.shared.tasks ∧ t = u.begin := by
  cases h with
  | works | wakesAndWorks =>
    rcases looks with same | same <;> cases same
    exact workBlock_holds holds
  | enters => rcases looks with same | same <;> cases same
  | _ => cases holds

theorem head_dropWhile {α : Type} {p : α → Bool} {xs ys : List α} {y : α}
    (rest : xs.dropWhile p = y :: ys) : p y = false := by
  have first := List.head?_dropWhile_not p xs
  rw [rest] at first
  simpa using first

/-- One pass under the lock removes exactly the prefix of expired tasks, with one call of the
callback for each, and no worker dequeues a task that is expired at the reading of its pass. -/
theorem expires_prefix {env : Surroundings} {now : Int} (reading : env.clock 0 = now)
    (real : now ≠ 0) :
    (∀ s : Impl, (s.expiry env).raised = false →
      s.removeExpiredTasks env =
          { s with
            tasks := s.tasks.dropWhile (fun t => t.expiredAt now)
            expiredCount :=
              s.expiredCount + (s.tasks.takeWhile (fun t => t.expiredAt now)).length } ∧
        s.expiryEvents env = (s.tasks.takeWhile (fun t => t.expiredAt now)).flatMap fun t =>
          if s.expireCallback then [.calledBack t.id, .expired t.id true]
          else [.expired t.id false]) ∧
    ∀ (clients : List Nat) (c c' : Config Impl Thread Event) (i : Nat) (a : WorkerAct)
      (cs : List Nat), threadManager.Reach (fresh clients) c →
      a = .iterate env ∨ a = .resume env → threadManager.Step c (.run i (.worker a) cs) c' →
      ∀ t ∈ c'.threads[i]?, ∀ task, t.worker = .holding task → task.expiredAt now = false ∧
        ∃ u, c.shared.tasks.dropWhile (fun t => t.expiredAt now) = u :: c'.shared.tasks ∧
          task = u.begin := by
  subst reading
  constructor
  · intro s calm
    obtain ⟨removed, rest⟩ := Impl.expiry_eq real calm
    refine ⟨?_, ?_⟩
    · unfold Impl.removeExpiredTasks
      rw [removed, rest]
    · rw [Impl.expiryEvents_eq calm, removed]
  · intro clients c c' i a cs _ looks next t there task holds
    have change := change_of_step next
    clear next
    cases change with
    | @worker _ _ _ t₀ w o ts alive here idle place step delivered =>
      have after := threadManager.getElem?_run_self (threadManager.deliver_woken delivered) here
        (t₀.withWorker idle o.self) []
      rw [List.append_nil] at after
      obtain rfl := Option.some.inj (after.symm.trans there)
      obtain ⟨calm, u, queue, rfl⟩ := step.holds looks holds
      rw [(Impl.expiry_eq real calm).2] at queue
      have spared := head_dropWhile queue
      exact ⟨(u.begin_expiredAt _).trans spared, u, queue, rfl⟩

/-- A pool of one worker, a callback, and two tasks that expire at 5 and at 20. -/
def addTwoDeadlines : List (Move Act) :=
  addRunExpire.take 12 ++
    [.run 0 (.call (.add ⟨10, 0, 4⟩ ⟨fun _ => 1, none⟩ 1)) [],
      .run 0 (.call (.add ⟨11, 0, 18⟩ ⟨fun _ => 2, none⟩ 2)) []]

theorem expires_prefix_twoDeadlines : ∃ c c', threadManager.Reach (fresh [1]) c ∧
    threadManager.Step c (.run 1 (.worker (.iterate ⟨fun _ => 10, none⟩)) []) c' ∧
    c.shared.tasks = [⟨0, 10, .waiting, 5⟩, ⟨1, 11, .waiting, 20⟩] ∧
    c.shared.expiryEvents ⟨fun _ => 10, none⟩ = [.calledBack 0, .expired 0 true] ∧
    (c'.threads[1]?).map Thread.worker = some (.holding ⟨1, 11, .executing, 20⟩) ∧
    (⟨1, 11, .executing, 20⟩ : Task).expiredAt 10 = false := by
  obtain ⟨c, run, queue, callback, next⟩ := threadManager.exists_reach (fresh [1])
    (fun c => c.shared.tasks = [⟨0, 10, .waiting, 5⟩, ⟨1, 11, .waiting, 20⟩] ∧
      c.shared.expireCallback = true ∧
      (threadManager.step c (.run 1 (.worker (.iterate ⟨fun _ => 10, none⟩)) [])).any (fun c' =>
        decide
          ((c'.threads[1]?).map Thread.worker = some (.holding ⟨1, 11, .executing, 20⟩))) = true)
    addTwoDeadlines (by decide)
  obtain ⟨c', step, holds⟩ := (Option.any_eq_true _ _).mp next
  have fires := threadManager.step_iff.mp step
  have clock : (⟨fun _ => 10, none⟩ : Surroundings).clock 0 = 10 := rfl
  obtain ⟨pass, dequeue⟩ := expires_prefix clock (by decide)
  obtain ⟨t, there, worker⟩ := Option.map_eq_some_iff.mp (of_decide_eq_true holds)
  refine ⟨c, c', run, fires, queue, ?_, of_decide_eq_true holds, ?_⟩
  · rw [(pass c.shared (expirePass_not_raised rfl _ _ _)).2, queue, callback]
    rfl
  · exact (dequeue [1] c c' 1 _ [] run (.inl rfl) fires t there _ worker).1

/-! ## The expire time -/

theorem int64_eq_self {z : Int} (fits : Fits z) : int64 z = z := by
  unfold int64 Fits at *
  rw [Int.bmod_def]
  omega

/-- A sum of two 64-bit values that is too large wraps to a negative one. -/
theorem int64_of_large {z : Int} (large : 2 ^ 63 ≤ z) (bound : z < 2 ^ 64) :
    int64 z = z - 2 ^ 64 := by
  unfold int64
  rw [Int.bmod_def]
  omega

theorem Task.make_expiredAt {id runnable : Nat} {expiration clock now : Int}
    (nonzero : expiration ≠ 0) : (Task.make id runnable expiration clock).expiredAt now = true ↔
      int64 (clock + expiration) ≠ 0 ∧ int64 (clock + expiration) ≤ now := by
  simp [Task.expiredAt, Task.make, nonzero]

/-- A pass treats its first task as expired if it is at the reading. -/
theorem Impl.expires_first {s : Impl} {env : Surroundings} {t : Task} {ts : List Task}
    (queue : s.tasks = t :: ts) (real : env.clock 0 ≠ 0) (calm : env.raises = none) :
    (s.expiry env).expired.head? = some t ↔ t.expiredAt (env.clock 0) = true := by
  rw [(expiry_eq real (expirePass_not_raised calm _ _ _)).1, queue, List.takeWhile_cons]
  cases expired : t.expiredAt (env.clock 0) with
  | true => simp
  | false => simp

/-- The pass is exact for a task exactly if the sum of the clock and the expiration is neither
0 nor too large. -/
theorem expires_on_time_iff {s : Impl} {env : Surroundings} {expiration clock : Int}
    {id runnable : Nat} {ts : List Task} (given : Fits expiration) (nonzero : expiration ≠ 0)
    (created : Fits clock) (epoch : 0 ≤ clock) (reading : Fits (env.clock 0))
    (positive : 0 < env.clock 0) (calm : env.raises = none)
    (queue : s.tasks = Task.make id runnable expiration clock :: ts) :
    ((s.expiry env).expired.head? = some (Task.make id runnable expiration clock) ↔
        clock + expiration ≤ env.clock 0) ↔
      clock + expiration < 2 ^ 63 ∧ clock + expiration ≠ 0 := by
  rw [Impl.expires_first queue (Int.ne_of_gt positive) calm, Task.make_expiredAt nonzero]
  unfold Fits at given created reading
  by_cases large : 2 ^ 63 ≤ clock + expiration
  · rw [int64_of_large large (by omega)]
    omega
  · rw [int64_eq_self (by unfold Fits; omega)]
    omega

/-- A task that is valid for a second. -/
theorem expires_on_time_iff_second :
    (((({ tasks := [Task.make 0 10 1000 1700000000000] } : Impl).expiry
        ⟨fun _ => 1700000001000, none⟩).expired.head? =
          some (Task.make 0 10 1000 1700000000000)) ↔
        (1700000000000 + 1000 : Int) ≤ 1700000001000) ↔
      (1700000000000 + 1000 : Int) < 2 ^ 63 ∧ (1700000000000 + 1000 : Int) ≠ 0 :=
  expires_on_time_iff (by decide) (by decide) (by decide) (by decide) (by decide)
    (by decide) rfl rfl

/-- A task that is to be valid for ever expires at once, and one that is to have expired at
time 0 never does. -/
theorem expires_at_once_or_never :
    (({ tasks := [Task.make 0 10 (2 ^ 63 - 1) 1700000000000] } : Impl).expiry
        ⟨fun _ => 1700000000001, none⟩).expired = [Task.make 0 10 (2 ^ 63 - 1) 1700000000000] ∧
    ¬(1700000000000 + (2 ^ 63 - 1) : Int) ≤ 1700000000001 ∧
    (∀ env : Surroundings,
      (({ tasks := [Task.make 0 10 (-1700000000000) 1700000000000] } : Impl).expiry env).expired =
        []) ∧
    (1700000000000 + -1700000000000 : Int) ≤ 1700000000001 :=
  ⟨by decide +kernel, by decide, fun _ => rfl, by decide⟩

end Threads.Manager
