import Threads.Concurrency.Deadlock
import Threads.Locks.Ownership

/-!
# No deadlock on the mutexes

No operation locks a mutex while it holds another. What can still lock a thread up is the
expire callback, which runs under `mutex_`.
-/

namespace Threads.Locks

open Concurrency

theorem operation_flat (op : Op) : Procedures.flat false (operation op) = true := by
  cases op <;> rfl

/-- `WaitAllJobDone` is called with no jobs pending, and code from outside calls an operation only
while its thread owns no mutex: an expire callback calls none. -/
def Orderly (c : Process) (mv : Move (LockAct Env Op)) : Prop :=
  TestsZero c mv ∧ procedures.CallsFree c mv

instance (c : Process) : DecidablePred (procedures.CallsFree c)
  | .run i (.call _) _ =>
    inferInstanceAs (Decidable (∀ t ∈ c.threads[i]?, procedures.owned t = []))
  | .run _ (.go _) _ => isTrue trivial
  | .run _ .fail _ => isTrue trivial
  | .spurious _ => isTrue trivial

instance (c : Process) (mv : Move (LockAct Env Op)) : Decidable (Orderly c mv) :=
  inferInstanceAs (Decidable (_ ∧ _))

theorem sound_flat_run {n : Nat} {c : Process} (run : procedures.program.Run Orderly (idle n) c) :
    Procedures.SoundAll (P := procedures) Bare c ∧ procedures.FlatAll c := by
  apply run.invariant
  · exact ⟨Procedures.soundAll_idle _ _ n, Procedures.flatAll_idle _ _ n⟩
  · rintro c mv c' ⟨sound, flat⟩ ⟨zero, free⟩ step
    exact ⟨Procedures.soundAll_step wellScoped sound ((passes_iff sound).mp zero) step,
      Procedures.flatAll_step operation_flat sound flat free step⟩

/-- Every thread owns one mutex at most and can go on while it owns one; and when no thread can go
on, no mutex is locked, and each has ended its calls or waits to be notified. -/
theorem no_mutex_deadlock (n : Nat) {c : Process}
    (run : procedures.program.Run Orderly (idle n) c) :
    (∀ t ∈ c.threads, (procedures.owned t).length ≤ 1 ∧ (procedures.owned t ≠ [] →
      procedures.AboutToCrash t ∨ ∀ e, (procedures.block c.shared t (.go e)).isSome = true)) ∧
    (procedures.program.Resting procedures.GoesOn c →
      (∀ t ∈ c.threads, ¬ procedures.AboutToCrash t) →
      c.shared.locked = [] ∧ ∀ t ∈ c.threads, t.frames = [] ∨ ∃ k, t.waiting = .parked k) := by
  obtain ⟨sound, flat⟩ := sound_flat_run run
  constructor
  · intro t mem
    exact ⟨Procedures.owned_length_le (flat t mem), Procedures.owner_goes_on sound flat mem⟩
  · intro rests alive
    exact Procedures.halt_cases sound flat {} rests alive

/-- A client makes a scheduler with one worker, which is about to test the queue. -/
def startScheduler : List (Move (LockAct Env Op)) :=
  .run 0 (.call (.newScheduler 1 0)) [] :: statements 0 68 1 { created := some 7 } ++
  statements 1 30 0 {}

theorem no_mutex_deadlock_startScheduler :
    ∃ c : Process, c.shared.locked = [.manager] ∧
      (∀ t ∈ c.threads, (procedures.owned t).length ≤ 1 ∧ (procedures.owned t ≠ [] →
        procedures.AboutToCrash t ∨ ∀ e, (procedures.block c.shared t (.go e)).isSome = true)) ∧
      (procedures.program.Resting procedures.GoesOn c →
        (∀ t ∈ c.threads, ¬ procedures.AboutToCrash t) →
        c.shared.locked = [] ∧ ∀ t ∈ c.threads, t.frames = [] ∨ ∃ k, t.waiting = .parked k) := by
  obtain ⟨c, run, locked⟩ := procedures.program.exists_run Orderly (idle 1)
    (fun c => c.shared.locked = [.manager]) startScheduler (by decide +kernel)
  exact ⟨c, locked, no_mutex_deadlock 1 run⟩

/-- The mutex of the guard that the thread is before. -/
def guardAhead : procedures.Thread → Option Mutex
  | ⟨.run (.guard m _ _ _) :: _, false, _, .awake, _⟩ => some m
  | _ => none

theorem blocked_of_guardAhead {s : Locks Mutex Data} {m : Mutex} {t : procedures.Thread}
    (before : guardAhead t = some m) (locked : m ∈ s.locked) (e : Env) :
    procedures.block s t (.go e) = none := by
  unfold guardAhead at before
  split at before
  · obtain rfl := Option.some.inj before
    exact if_pos locked
  · cases before

/-- A task has expired when the next one is added, and the expire callback asks for the number of
workers. -/
def callbackCalls : List (Move (LockAct Env Op)) :=
  .run 0 (.call (.newScheduler 0 0)) [] :: statements 0 60 0 {} ++
  .run 0 (.call (.setExpireCallback true)) [] :: statements 0 2 0 {} ++
  .run 0 (.call (.add { value := 5, expiration := 1 })) [] :: statements 0 21 0 { clock := 1 } ++
  .run 0 (.call (.add { value := 6 })) [] :: statements 0 27 0 { clock := 9 } ++
  [.run 0 (.call .workerCount) []]

/-- The callback waits for the mutex under which it runs itself. -/
theorem callback_locks_up :
    ∃ c, procedures.program.Run TestsZero (idle 1) c ∧
      procedures.program.Resting procedures.GoesOn c ∧ Mutex.manager ∈ c.shared.locked := by
  obtain ⟨c, run, before, locked⟩ := procedures.program.exists_run TestsZero (idle 1)
    (fun c => (∀ t ∈ c.threads, guardAhead t = some .manager) ∧ Mutex.manager ∈ c.shared.locked)
    callbackCalls (by decide +kernel)
  refine ⟨c, run, fun mv c' goes step => ?_, locked⟩
  cases step with
  | spurious => exact goes
  | @run i a cs t o ts here fires =>
    cases a with
    | call | fail => exact goes
    | go e =>
      have blocked := blocked_of_guardAhead (before t (List.mem_of_getElem? here)) locked e
      exact Option.some_ne_none o (fires.symm.trans blocked)

end Threads.Locks
