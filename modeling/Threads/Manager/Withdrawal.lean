import Mathlib.Data.Prod.Basic
import Threads.Manager.Accounting

/-!
# Taking back queued work

`RemoveNextPending` and `Remove` test `state_` as `Add` does, the first the other way round.
`Remove` touches no task.
-/

namespace Threads.Manager

open Concurrency

/-- Thread `i` is refused with an `IllegalStateException`, and nothing changes. -/
def Refuses (op : Operation) (c : Config Impl Thread Event) (i : Nat)
    (c' : Config Impl Thread Event) : Prop :=
  c'.shared = c.shared ∧ ∃ message, c'.log = c.log ++ [(i, .threw op (.illegalState message))]

/-- In no continuation does a worker run the task. -/
def NeverRuns (c : Config Impl Thread Event) (task : Nat) : Prop :=
  ∀ c', threadManager.Reach c c' → ∀ j, (j, .ran task) ∉ c'.log

/-- `RemoveNextPending` takes the head of the queue, if there is one. -/
def TakesHead (c : Config Impl Thread Event) (i : Nat) (c' : Config Impl Thread Event) : Prop :=
  match c.shared.tasks with
  | [] => c'.shared = c.shared ∧ c'.log = c.log ++ [(i, .returned .removeNextPending)]
  | t :: ts =>
    c'.shared = { c.shared with tasks := ts } ∧
      c'.log = c.log ++ [(i, .withdrawn t.id t.runnable), (i, .returned .removeNextPending)]

/-- `Remove` deletes the tasks with this runnable, and they are not run. -/
def Deletes (runnable : Nat) (c : Config Impl Thread Event) (i : Nat)
    (c' : Config Impl Thread Event) : Prop :=
  c'.shared = { c.shared with tasks := c.shared.tasks.filter fun t => t.runnable ≠ runnable } ∧
    c'.log = c.log ++ [(i, .returned .remove)] ∧
    ∀ t ∈ c.shared.tasks, t.runnable = runnable → NeverRuns c' t.id

/-- What a step does to the queue on behalf of a client, behind one gate. -/
def WithdrawsWork (c : Config Impl Thread Event) (mv : ManagerMove)
    (c' : Config Impl Thread Event) : Prop :=
  match mv with
  | .run i (.call .removeNextPending) _ =>
    if c.shared.state = .started then TakesHead c i c' else Refuses .removeNextPending c i c'
  | .run i (.call (.remove runnable)) _ =>
    if c.shared.state = .started then Deletes runnable c i c' else Refuses .remove c i c'
  | .run i (.call (.add _ _ _)) _ => c.shared.state ≠ .started → Refuses .add c i c'
  | _ => True

/-- The step does not call `RemoveNextPending`, nor `Remove` in a started manager for a task
that is queued. -/
def AsksNoRemoval (c : Config Impl Thread Event) : ManagerMove → Prop
  | .run _ (.call .removeNextPending) _ => False
  | .run _ (.call (.remove runnable)) _ =>
    c.shared.state = .started → ∀ t ∈ c.shared.tasks, t.runnable ≠ runnable
  | _ => True

/-! ## The blocks -/

section Block

variable {s : Impl} {id : Nat} {d : Call} {o : Effect Call}

theorem CallStep.of_remove {runnable : Nat} (h : CallStep s id d (.remove runnable) o) :
    o = removeBlock s := by
  cases h
  rfl

theorem CallStep.of_removeNextPending (h : CallStep s id d .removeNextPending o) :
    o = removeNextPendingBlock s := by
  cases h
  rfl

/-- `Add` is refused by a manager that is not started. -/
theorem CallStep.of_closed {r : Request} {env : Surroundings} {now : Int}
    (h : CallStep s id d (.add r env now) o) (closed : s.state ≠ .started) :
    o.shared = s ∧ o.events = [.threw .add (notStarted "Add")] := by
  cases h with
  | addRefused => exact ⟨rfl, rfl⟩
  | addRaised opened | addParks opened | addTooMany opened | adds opened =>
    exact absurd opened closed

/-- The gate of `RemoveNextPending` is closed in a started manager and open in any other. -/
theorem removeNextPendingBlock_events (s : Impl) :
    (s.state = .started → (removeNextPendingBlock s).events =
      [.threw .removeNextPending (notStarted "RemoveNextPending")]) ∧
    (s.state ≠ .started → ∃ es, (removeNextPendingBlock s).events =
      es ++ [.returned .removeNextPending]) := by
  unfold removeNextPendingBlock
  constructor
  · intro started
    rw [if_pos started]
  · intro closed
    rw [if_neg closed]
    split
    · exact ⟨[], rfl⟩
    · exact ⟨[_], rfl⟩

end Block

/-! ## Steps and runs -/

section Steps

variable {c c' : Config Impl Thread Event} {i : Nat}

theorem log_of_call {log : List (Nat × Event)} {es : List Event} (es' : List Event)
    (same : log ++ es.map (Prod.mk i) = log ++ es'.map (Prod.mk i)) : es = es' :=
  List.map_injective_iff.mpr (Prod.mk_right_injective i) (List.append_cancel_left same)

/-- A call of `RemoveNextPending` goes wrong in every state. -/
theorem not_withdrawsWork_removeNextPending {cs : List Nat}
    (change : Change c (.run i (.call .removeNextPending) cs) c') :
    ¬WithdrawsWork c (.run i (.call .removeNextPending) cs) c' := by
  cases change with
  | @call _ _ _ t d o ts alive here makesCalls place step delivered =>
    obtain rfl := step.of_removeNextPending
    obtain ⟨refuses, returns⟩ := removeNextPendingBlock_events c.shared
    intro right
    unfold WithdrawsWork at right
    dsimp only at right
    split at right
    · rename_i started
      rw [refuses started] at right
      unfold TakesHead at right
      split at right
      · have same := log_of_call [.returned .removeNextPending] right.2
        simp at same
      · rename_i t ts queue
        have same := log_of_call [.withdrawn t.id t.runnable, .returned .removeNextPending] right.2
        simp at same
    · rename_i closed
      obtain ⟨es, events⟩ := returns closed
      obtain ⟨-, message, log⟩ := right
      have same := log_of_call [.threw .removeNextPending (.illegalState message)] log
      rw [events] at same
      have last := congrArg List.getLast? same
      simp at last

theorem withdrawsWork_remove_iff {runnable : Nat} {cs : List Nat}
    (change : Change c (.run i (.call (.remove runnable)) cs) c') :
    WithdrawsWork c (.run i (.call (.remove runnable)) cs) c' ↔
      (c.shared.state = .started → ∀ t ∈ c.shared.tasks, t.runnable ≠ runnable) := by
  cases change with
  | @call _ _ _ t d o ts alive here makesCalls place step delivered =>
    obtain rfl := step.of_remove
    unfold WithdrawsWork
    dsimp only
    by_cases started : c.shared.state = .started
    · rw [if_pos started]
      have block : removeBlock c.shared =
          { shared := c.shared, self := .none, events := [.returned .remove] } := by
        unfold removeBlock
        rw [if_neg (not_not.mpr started)]
      rw [block]
      unfold Deletes
      dsimp only
      constructor
      · rintro ⟨deleted, -, -⟩ _ t mem same
        have tasks := congrArg Impl.tasks deleted
        dsimp only at tasks
        rw [tasks] at mem
        exact absurd same (of_decide_eq_true (List.mem_filter.mp mem).2)
      · intro others
        have kept : c.shared.tasks.filter (fun t => t.runnable ≠ runnable) = c.shared.tasks :=
          List.filter_eq_self.mpr fun t mem => decide_eq_true (others started t mem)
        rw [kept]
        exact ⟨rfl, rfl, fun t mem same => absurd same (others started t mem)⟩
    · rw [if_neg started]
      have block : removeBlock c.shared =
          { shared := c.shared
            self := .none
            events := [.threw .remove (notStarted "Remove")] } := by
        unfold removeBlock
        rw [if_pos started]
      rw [block]
      exact iff_of_true ⟨rfl, _, rfl⟩ fun opened => absurd opened started

theorem withdrawsWork_add {r : Request} {env : Surroundings} {now : Int} {cs : List Nat}
    (change : Change c (.run i (.call (.add r env now)) cs) c') :
    WithdrawsWork c (.run i (.call (.add r env now)) cs) c' := by
  cases change with
  | call alive here makesCalls place step delivered =>
    intro closed
    obtain ⟨shared, events⟩ := step.of_closed closed
    refine ⟨shared, "ThreadManager::Impl::Add ThreadManager not started", ?_⟩
    rw [events]
    rfl

theorem withdrawsWork_iff {mv : ManagerMove} (change : Change c mv c') :
    WithdrawsWork c mv c' ↔ AsksNoRemoval c mv := by
  unfold AsksNoRemoval
  split
  · exact iff_of_false (not_withdrawsWork_removeNextPending change) id
  · exact withdrawsWork_remove_iff change
  · rename_i noNext noRemove
    refine iff_of_true ?_ trivial
    unfold WithdrawsWork
    split
    · exact absurd rfl (noNext _ _)
    · exact absurd rfl (noRemove _ _ _)
    · exact withdrawsWork_add change
    · trivial

end Steps

/-- Work is withdrawn as asked all along a run exactly if `RemoveNextPending` is not called, and
`Remove` is called in a started manager only for runnables that are not queued. -/
theorem withdraws_work_iff (clients : List Nat) (mvs : List ManagerMove) :
    threadManager.EachTaken WithdrawsWork (fresh clients) mvs ↔
      threadManager.EachStep AsksNoRemoval (fresh clients) mvs :=
  have exactly {c c' : Config Impl Thread Event} {mv : ManagerMove} (_ : True)
      (next : threadManager.Step c mv c') : WithdrawsWork c mv c' ↔ AsksNoRemoval c mv :=
    withdrawsWork_iff (change_of_step next)
  Program.eachTaken_iff exactly (fun _ _ _ => trivial) trivial mvs

/-- A pool of one worker, with one task in the queue. -/
def queueOne : List ManagerMove := addRunExpire.take 13

/-- In a started manager `RemoveNextPending` throws, and `Remove` returns without deleting the
task, which a worker then runs; a manager that is not started lets `RemoveNextPending` return. -/
theorem removal_fails :
    (∃ c c', threadManager.Reach (fresh [1]) c ∧
      threadManager.Step c (.run 0 (.call .removeNextPending) []) c' ∧
      c.shared.state = .started ∧ c.shared.tasks.length = 1 ∧
      c'.log.getLast? =
        some (0, .threw .removeNextPending (notStarted "RemoveNextPending")) ∧
      ¬WithdrawsWork c (.run 0 (.call .removeNextPending) []) c') ∧
    (∃ c c' c'', threadManager.Reach (fresh [1]) c ∧
      threadManager.Step c (.run 0 (.call (.remove 10)) []) c' ∧ threadManager.Reach c' c'' ∧
      c.shared.state = .started ∧ c.shared.tasks.map Task.runnable = [10] ∧
      c'.log.getLast? = some (0, .returned .remove) ∧ (1, .ran 0) ∈ c''.log ∧
      ¬WithdrawsWork c (.run 0 (.call (.remove 10)) []) c') ∧
    ∃ c', threadManager.Step (fresh [1]) (.run 0 (.call .removeNextPending) []) c' ∧
      c'.log = [(0, .returned .removeNextPending)] ∧
      ¬WithdrawsWork (fresh [1]) (.run 0 (.call .removeNextPending) []) c' := by
  refine ⟨?_, ?_, ?_⟩
  · obtain ⟨c, reach, started, one, next⟩ := threadManager.exists_reach (fresh [1])
      (fun c => c.shared.state = .started ∧ c.shared.tasks.length = 1 ∧
        (threadManager.step c (.run 0 (.call .removeNextPending) [])).any (fun c' =>
          decide (c'.log.getLast? =
            some (0, .threw .removeNextPending (notStarted "RemoveNextPending")))) = true)
      queueOne (by decide)
    obtain ⟨c', step, threw⟩ := (Option.any_eq_true _ _).mp next
    have fires := threadManager.step_iff.mp step
    exact ⟨c, c', reach, fires, started, one, of_decide_eq_true threw,
      not_withdrawsWork_removeNextPending (change_of_step fires)⟩
  · obtain ⟨c, reach, started, queue, next⟩ := threadManager.exists_reach (fresh [1])
      (fun c => c.shared.state = .started ∧ c.shared.tasks.map Task.runnable = [10] ∧
        (threadManager.step c (.run 0 (.call (.remove 10)) [])).any (fun c' =>
          decide (c'.log.getLast? = some (0, .returned .remove)) &&
            (threadManager.exec c' [.run 1 (.worker (.iterate ⟨fun _ => 0, none⟩)) [],
              .run 1 (.worker .run) []]).any fun c'' => decide ((1, .ran 0) ∈ c''.log)) = true)
      queueOne (by decide)
    obtain ⟨c', step, facts⟩ := (Option.any_eq_true _ _).mp next
    obtain ⟨returned, later⟩ := (Bool.and_eq_true _ _).mp facts
    obtain ⟨c'', run, ran⟩ := threadManager.exists_reach c'
      (fun c'' => (1, .ran 0) ∈ c''.log) _ later
    have fires := threadManager.step_iff.mp step
    refine ⟨c, c', c'', reach, fires, run, started, queue, of_decide_eq_true returned, ran, ?_⟩
    intro right
    obtain ⟨t, mem, same⟩ : ∃ t ∈ c.shared.tasks, t.runnable = 10 :=
      List.mem_map.mp (queue ▸ List.mem_singleton_self 10)
    exact (withdrawsWork_remove_iff (change_of_step fires)).mp right started t mem same
  · obtain ⟨c', step, log⟩ : ∃ c', threadManager.step (fresh [1])
        (.run 0 (.call .removeNextPending) []) = some c' ∧
          c'.log = [(0, .returned .removeNextPending)] := ⟨_, rfl, rfl⟩
    have fires := threadManager.step_iff.mp step
    exact ⟨c', fires, log, not_withdrawsWork_removeNextPending (change_of_step fires)⟩

end Threads.Manager
