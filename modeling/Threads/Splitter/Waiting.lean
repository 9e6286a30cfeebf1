import Threads.Splitter.Pending

/-!
# The test and the wait of `WaitAllJobDone`

`WaitAllJobDone` tests `pending_job_count_` and calls `monitor_.Wait()` without
the mutex of `monitor_`. The last completion may fall in between; its broadcast
then wakes nobody.
-/

namespace Threads.Splitter

open Concurrency

/-- The clients in `monitor_.Wait()` with no notification delivered. -/
def parkedCount (c : Config Scheduler Role Event) : Nat := total (scheduler.parkedIn ()) c.threads

/-- A client is parked although all jobs are done, and nobody will notify it. -/
def LostWakeup (c : Config Scheduler Role Event) : Prop :=
  outstanding c = 0 ∧ c.shared.pendingJobCount = 0 ∧ 0 < parkedCount c

/-- A client that calls `monitor_.Wait()` does so before the last completion. -/
def ParksInTime (c : Config Scheduler Role Event) : Move Act → Prop
  | .run _ .wait _ => c.shared.pendingJobCount ≠ 0 ∨ 0 < outstanding c
  | _ => True

instance (c : Config Scheduler Role Event) (mv : Move Act) : Decidable (ParksInTime c mv) := by
  unfold ParksInTime
  split <;> infer_instance

instance : DecidablePred LostWakeup := fun _ => inferInstanceAs (Decidable (_ ∧ _ ∧ _))

/-- Whoever waits has been waiting since before the last completion. -/
structure InTime (c : Config Scheduler Role Event) : Prop where
  counts : Counts c
  noneLost : ¬ LostWakeup c

theorem RoleStep.awake {s : Scheduler} {r : Role} {a : Act} {o : Effect} (h : RoleStep s r a o) :
    scheduler.waitsOn r ≠ some () := by
  cases h <;> exact nofun

/-- A step broadcasts and parks nobody, or it parks its own thread and changes nothing
else, or it wakes nobody and completes nothing. -/
theorem RoleStep.broadcasts_or_parks {s : Scheduler} {r : Role} {a : Act} {o : Effect}
    (h : RoleStep s r a o) :
    a ≠ .wait ∧ o.signals = [.notifyAll ()] ∧ scheduler.parkedIn () o.self = 0 ∨
    a = .wait ∧ o.signals = [] ∧ scheduler.parkedIn () o.self = 1 ∧ o.events = [] ∧
      o.shared.pendingJobCount = s.pendingJobCount ∨
    a ≠ .wait ∧ o.signals = [] ∧ scheduler.parkedIn () o.self = 0 ∧
      o.events.countP Event.isCompleted = 0 ∧ o.shared.pendingJobCount = s.pendingJobCount := by
  cases h with
  | counts | completes => exact .inl ⟨nofun, rfl, rfl⟩
  | parks => exact .inr (.inl ⟨rfl, rfl, rfl, rfl, rfl⟩)
  | _ => exact .inr (.inr ⟨nofun, rfl, rfl, rfl, rfl⟩)

theorem parksInTime_of_ne {c : Config Scheduler Role Event} {i : Nat} {a : Act} {cs : List Nat}
    (other : a ≠ .wait) : ParksInTime c (.run i a cs) := by
  unfold ParksInTime
  split
  · rename_i same
    cases same
    exact absurd rfl other
  · trivial

/-- A wakeup is lost at the call of `monitor_.Wait()`, and only there. -/
theorem lostWakeup_step {c c' : Config Scheduler Role Event} {mv : Move Act} (h : InTime c)
    (step : scheduler.Step c mv c') : LostWakeup c' ↔ ¬ ParksInTime c mv := by
  obtain ⟨⟨jobs, -, -⟩, noneLost⟩ := h
  cases step with
  | @spurious i r here waits =>
    have fewer : total (scheduler.parkedIn ()) (c.threads.set i (scheduler.wake r)) ≤
        parkedCount c :=
      scheduler.total_parkedIn_wake_le () here
    refine iff_of_false ?_ (not_not.mpr trivial)
    rintro ⟨done, zero, parked⟩
    exact noneLost ⟨done, zero, Nat.lt_of_lt_of_le parked fewer⟩
  | @run i a cs r o ts here fires delivered =>
    have role := roleStep_of_block fires
    have left := scheduler.total_parkedIn_run delivered here role.awake o.self o.spawned
    simp only [role.spawns_nothing, List.append_nil, total_nil, Nat.add_zero] at left ⊢
    rcases role.broadcasts_or_parks with ⟨other, signals, awake⟩ |
      ⟨rfl, signals, parks, events, same⟩ | ⟨other, signals, awake, completes, same⟩
    · refine iff_of_false ?_ (not_not.mpr (parksInTime_of_ne other))
      rintro ⟨-, -, parked⟩
      rw [signals, awake, Program.afterSignals_notifyAll, if_pos rfl] at left
      exact absurd parked (by rw [parkedCount, left]; decide)
    · rw [signals, parks, Program.afterSignals_nil] at left
      rw [events, List.map_nil, List.append_nil]
      constructor
      · rintro ⟨done, zero, -⟩ (pending | waited)
        · exact pending (same ▸ zero)
        · exact absurd done (Nat.ne_of_gt waited)
      · intro late
        obtain ⟨zero, done⟩ := not_or.mp late
        exact ⟨Nat.eq_zero_of_not_pos done, same.trans (not_not.mp zero),
          Nat.lt_of_lt_of_eq (Nat.succ_pos _) left.symm⟩
    · refine iff_of_false ?_ (not_not.mpr (parksInTime_of_ne other))
      rintro ⟨done, zero, parked⟩
      rw [signals, awake, Program.afterSignals_nil, Nat.add_zero] at left
      refine noneLost ⟨?_, same ▸ zero, ?_⟩
      · simp only [outstanding, handedCount, completedCount, countP_log, completes] at done ⊢
        omega
      · rwa [parkedCount, left] at parked

theorem inTime_fresh (workers clients : Nat) : InTime (fresh workers clients) where
  counts := counts_fresh workers clients
  noneLost := fun lost => by
    have nobody := total_fresh workers clients (f := scheduler.parkedIn ()) rfl rfl
    exact absurd lost.2.2 (by rw [parkedCount, nobody]; decide)

/-- No wakeup is lost along a schedule exactly if every client in it that calls
`monitor_.Wait()` does so before the last completion. -/
theorem no_lost_wakeup_iff (workers clients : Nat) (mvs : List (Move Act)) :
    scheduler.Throughout (fun c => ¬ LostWakeup c) (fresh workers clients) mvs ↔
      scheduler.EachStep ParksInTime (fresh workers clients) mvs :=
  Program.throughout_iff InTime.noneLost
    (fun h ok step => ⟨counts_step h.counts step,
      fun lost => (lostWakeup_step h step).mp lost ok⟩)
    (fun h late step => not_not.mpr ((lostWakeup_step h step).mpr late))
    (inTime_fresh workers clients) mvs

/-- The only job is completed between the client's test and its wait. -/
def completeThenPark : List (Move Act) :=
  [.run 1 .addSplitterJob [], .run 1 .add [], .run 1 .count [], .run 0 .take [],
    .run 1 .waitAllJobDone [], .run 1 .test [], .run 0 .onCompletedJob [], .run 1 .wait []]

theorem last_completion_missed : ∃ c, scheduler.Reach (fresh 1 1) c ∧ LostWakeup c :=
  scheduler.exists_reach _ _ completeThenPark (by decide)

end Threads.Splitter
