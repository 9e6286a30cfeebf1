import Threads.Splitter.Places

/-!
# `NotifyAllObservers` and expired observers

The loop locks each observer and calls it without a test for null. An observer that has
lost its last reference before its turn is null by then.
-/

namespace Threads.Splitter

open Concurrency

def Back.remaining (s : JobScheduler) : Back → List Observer
  | .notify job next => (s.observers job).drop next
  | _ => []

/-- The observers that a thread in `NotifyAllObservers` has still to call. -/
def Place.remaining (s : JobScheduler) : Place → List Observer
  | .notifying job next => (s.observers job).drop next
  | .calling job next _ => (s.observers job).drop (next + 1)
  | .called job next _ raised => if raised then [] else (s.observers job).drop (next + 1)
  | .destroying back => back.remaining s
  | _ => []

/-- The observers of a job that is being split. -/
def Place.observed (s : JobScheduler) : Place → List Observer
  | .splitting job => s.observers job
  | _ => []

/-- The loop variable `ob` once `OnCompletedJob` is over. -/
def Place.ob : Place → Option Observer
  | .called _ _ ob _ => some ob
  | _ => none

/-- No observer has been called on null, and none of those that are still to be called
has expired. -/
structure CallsLive (c : Config JobScheduler Member JobEvent) : Prop where
  past : ∀ e ∈ c.log, ∀ job o, e.2 ≠ .calledNull job o
  next : ∀ v ∈ c.threads, ∀ o ∈ v.place.remaining c.shared, 0 < c.shared.useCount o

/-- `o` does not lose its last reference while a thread has still to call it. -/
def SparesObserver (c : Config JobScheduler Member JobEvent) (o : Observer) : Prop :=
  c.shared.useCount o = 1 → ∀ v ∈ c.threads, o ∉ v.place.remaining c.shared

/-- When `Split` returns all observers of the job are alive, and none loses its last
reference while it is still to be called. -/
def KeepsObservers (c : Config JobScheduler Member JobEvent) : Move JobAct → Prop
  | .run i (.split (.returned _)) _ => ∀ v ∈ c.threads[i]?, ∀ o ∈ v.place.observed c.shared,
    0 < c.shared.useCount o
  | .run _ (.drop o) _ => SparesObserver c o
  | .run i .release _ => ∀ v ∈ c.threads[i]?, ∀ o ∈ v.place.ob, SparesObserver c o
  | _ => True

instance (c : Config JobScheduler Member JobEvent) (o : Observer) :
    Decidable (SparesObserver c o) :=
  inferInstanceAs (Decidable (_ → _))

instance (c : Config JobScheduler Member JobEvent) (mv : Move JobAct) :
    Decidable (KeepsObservers c mv) := by
  unfold KeepsObservers
  split <;> infer_instance

/-! ## The observers of a step -/

theorem Back.place_remaining (s : JobScheduler) (back : Back) :
    back.place.remaining s = back.remaining s := by
  cases back <;> rfl

theorem afterRelease_remaining (s s' : JobScheduler) (o : Observer) (back : Back) :
    (afterRelease s o back).remaining s' = back.remaining s' := by
  unfold afterRelease
  split
  · rfl
  · exact Back.place_remaining s' back

theorem remaining_congr {s s' : JobScheduler} (same : s'.observers = s.observers) (p : Place) :
    p.remaining s' = p.remaining s := by
  cases p with
  | destroying back => cases back <;> simp only [Place.remaining, Back.remaining, same]
  | _ => simp only [Place.remaining, same]

theorem remaining_appendObserver (s : JobScheduler) (job : Nat) (p : Place) :
    ∀ o ∈ p.remaining (s.appendObserver job), o ∈ p.remaining s ∨ o = .scheduler := by
  have drops (k n : Nat) (o : Observer) (mem : o ∈ ((s.appendObserver job).observers k).drop n) :
      o ∈ (s.observers k).drop n ∨ o = .scheduler := by
    unfold JobScheduler.appendObserver at mem
    by_cases same : k = job
    · subst same
      simp only [Function.update_self, List.drop_append, List.mem_append] at mem
      exact mem.imp_right fun new => List.mem_singleton.mp (List.mem_of_mem_drop new)
    · simp only [Function.update_of_ne same] at mem
      exact .inl mem
  intro o mem
  cases p with
  | notifying job next | calling job next => exact drops _ _ o mem
  | called job next ob raised =>
    cases raised
    · exact drops _ _ o mem
    · cases mem
  | destroying back =>
    cases back with
    | notify job next => exact drops _ _ o mem
    | _ => cases mem
  | _ => cases mem

theorem CallEnds.remaining {s s' : JobScheduler} {o : Manager.Effect Manager.Call} {p p' : Place}
    (h : CallEnds s o p s' p') : ∀ x ∈ p'.remaining s, x ∈ p.remaining s := by
  cases h with
  | goesOn => exact fun _ mem => mem
  | stopped | stopThrows =>
    intro x mem
    rw [Back.place_remaining] at mem
    exact mem
  | _ => exact fun _ mem => absurd mem List.not_mem_nil

/-- A block of the thread manager lets no observer go and registers none. -/
theorem CallEnds.observers {s s' : JobScheduler} {o : Manager.Effect Manager.Call} {p p' : Place}
    (h : CallEnds s o p s' p') :
    s'.observers = s.observers ∧ ∀ x, s.useCount x ≤ s'.useCount x := by
  cases h with
  | makes =>
    refine ⟨rfl, fun x => ?_⟩
    rw [JobScheduler.keep_useCount, JobScheduler.hold_useCount]
    exact Nat.le_add_right _ _
  | _ => exact ⟨rfl, fun _ => Nat.le_refl _⟩

theorem ManagerStep.observers {s : JobScheduler} {v : Member} {a : Manager.Act}
    {o : JobEffect Member} (h : ManagerStep s v a o) :
    o.shared.observers = s.observers ∧ ∀ x, s.useCount x ≤ o.shared.useCount x := by
  cases h with
  | calls place makesCalls call own step ends => exact ends.observers
  | _ => exact ⟨rfl, fun _ => Nat.le_refl _⟩

theorem ManagerStep.remaining {s : JobScheduler} {v : Member} {a : Manager.Act}
    {o : JobEffect Member} (h : ManagerStep s v a o) :
    ∀ x ∈ o.self.place.remaining s, x ∈ v.place.remaining s := by
  cases h with
  | @works a w o =>
    have none (w : Manager.Worker) : (placeOf w).remaining s = [] := by cases w <;> rfl
    intro x mem
    dsimp only at mem
    rw [none] at mem
    cases mem
  | finishes | initializes => exact fun _ mem => absurd mem List.not_mem_nil
  | calls place makesCalls call own step ends => exact ends.remaining

theorem ManagerStep.calls_nobody {s : JobScheduler} {v : Member} {a : Manager.Act}
    {o : JobEffect Member} (h : ManagerStep s v a o) :
    ∀ e ∈ o.events, ∀ job x, e ≠ .calledNull job x := by
  cases h with
  | works | calls =>
    intro e mem job x
    obtain ⟨f, -, rfl⟩ := List.mem_map.mp mem
    exact nofun
  | finishes =>
    intro e mem job x
    rw [List.mem_singleton.mp mem]
    exact nofun
  | initializes => exact fun e mem => absurd mem List.not_mem_nil

/-- A thread goes on with the observers it has not called yet, or with those of the job
that it has split. -/
theorem JobStep.remaining {s : JobScheduler} {p : Place} {a : JobAct} {o : JobEffect Place}
    (h : JobStep s p a o) :
    ∀ x ∈ o.self.remaining s, x ∈ p.remaining s ∨
      x ∈ p.observed s ∧ ∃ ok, a = .split (.returned ok) := by
  intro x mem
  cases h with
  | drops =>
    rw [show (afterRelease s _ _).remaining s = _ from afterRelease_remaining s s _ _] at mem
    cases mem
  | @splits job ok => exact .inr ⟨mem, ok, rfl⟩
  | @locks job next =>
    left
    have later : x ∈ (s.observers job).drop (next + 1) := mem
    rw [← List.tail_drop] at later
    exact List.mem_of_mem_tail later
  | @callsOther job next n raises =>
    cases raises
    · exact .inl mem
    · cases mem
  | @releases job next ob raised =>
    dsimp only [releaseBlock] at mem
    rw [afterRelease_remaining] at mem
    cases raised
    · exact .inl mem
    · cases mem
  | callsNull | completes => exact .inl mem
  | _ => cases mem

/-- An observer expires when its last reference is dropped or released. -/
theorem JobStep.lives {s : JobScheduler} {p : Place} {a : JobAct} {o : JobEffect Place}
    (h : JobStep s p a o) {x : Observer} (live : 0 < s.useCount x) :
    0 < o.shared.useCount x ∨
      s.useCount x = 1 ∧ (a = .drop x ∨ a = .release ∧ p.ob = some x) := by
  have lets (ob : Observer) : 0 < (s.letGo ob).useCount x ∨ s.useCount x = 1 ∧ ob = x := by
    rw [JobScheduler.letGo_useCount]
    by_cases same : x = ob
    · rw [if_pos same]
      by_cases last : s.useCount x = 1
      · exact .inr ⟨last, same.symm⟩
      · exact .inl (by omega)
    · rw [if_neg same]
      exact .inl live
  cases h with
  | copies =>
    left
    rw [JobScheduler.keep_useCount, JobScheduler.hold_useCount]
    exact Nat.lt_of_lt_of_le live (Nat.le_add_right _ _)
  | locks =>
    left
    rw [JobScheduler.hold_useCount]
    exact Nat.lt_of_lt_of_le live (Nat.le_add_right _ _)
  | @drops ob =>
    rcases lets ob with left | ⟨last, rfl⟩
    · exact .inl left
    · exact .inr ⟨last, .inl rfl⟩
  | @releases job next ob raised =>
    rcases lets ob with left | ⟨last, rfl⟩
    · exact .inl left
    · exact .inr ⟨last, .inr ⟨rfl, rfl⟩⟩
  | _ => exact .inl live

/-- Only `RegisterObserver` changes a list of observers. -/
theorem JobStep.observers {s : JobScheduler} {p : Place} {a : JobAct} {o : JobEffect Place}
    (h : JobStep s p a o) :
    o.shared.observers = s.observers ∨
      ∃ job, p = .appending job ∧ o.shared = s.appendObserver job := by
  cases h with
  | @appends job => exact .inr ⟨job, rfl, rfl⟩
  | _ => exact .inl rfl

theorem JobStep.registers {s : JobScheduler} {p : Place} {a : JobAct} {o : JobEffect Place}
    (h : JobStep s p a o) (counted : p.holds .scheduler ≤ s.useCount .scheduler) (q : Place) :
    ∀ x ∈ q.remaining o.shared, x ∈ q.remaining s ∨ 0 < o.shared.useCount x := by
  intro x mem
  rcases h.observers with same | ⟨job, rfl, registered⟩
  · rw [remaining_congr same] at mem
    exact .inl mem
  · rw [registered] at mem ⊢
    rcases remaining_appendObserver s job q x mem with old | rfl
    · exact .inl old
    · exact .inr (Nat.lt_of_lt_of_le Nat.one_pos counted)

/-! ## Runs -/

structure ObserverAccount (c : Config JobScheduler Member JobEvent) : Prop where
  fits : ∀ v ∈ c.threads, v.Fits
  refs : RefsCounted c
  live : CallsLive c

section Step

variable {c c' : Config JobScheduler Member JobEvent} {mv : Move JobAct}

theorem KeepsObservers.split {i : Nat} {ok : Bool} {cs : List Nat} {v : Member}
    (h : KeepsObservers c (.run i (.split (.returned ok)) cs)) (here : c.threads[i]? = some v) :
    ∀ o ∈ v.place.observed c.shared, 0 < c.shared.useCount o := h v here

/-- An observer with its last reference in this step is not to be called any more. -/
theorem KeepsObservers.spares {i : Nat} {a : JobAct} {cs : List Nat} {v : Member} {x : Observer}
    (h : KeepsObservers c (.run i a cs)) (here : c.threads[i]? = some v)
    (lets : a = .drop x ∨ a = .release ∧ v.place.ob = some x) : SparesObserver c x := by
  rcases lets with rfl | ⟨rfl, held⟩
  · exact h
  · exact h v here x held

theorem JobStep.calls_live {s : JobScheduler} {p : Place} {a : JobAct} {o : JobEffect Place}
    (h : JobStep s p a o) (live : ∀ x ∈ p.remaining s, 0 < s.useCount x) :
    ∀ e ∈ o.events, ∀ job x, e ≠ .calledNull job x := by
  cases h with
  | @callsNull job next x there dead =>
    have mem : x ∈ (s.observers job).drop next := by
      rw [List.mem_iff_getElem?]
      exact ⟨0, by rw [List.getElem?_drop]; exact there⟩
    exact absurd (live x mem) (by rw [dead]; exact Nat.lt_irrefl 0)
  | completes | callsOther =>
    intro e mem job x
    rw [List.mem_singleton.mp mem]
    exact nofun
  | _ => exact fun e mem => absurd mem List.not_mem_nil

theorem callsLive_step (h : ObserverAccount c) (ok : KeepsObservers c mv)
    (change : JobChange c mv c') : CallsLive c' := by
  obtain ⟨-, refs, past, next⟩ := h
  cases change with
  | @spurious i v here waits =>
    refine ⟨past, fun u mem => ?_⟩
    rcases List.mem_or_eq_of_mem_set mem with old | rfl
    · exact next u old
    · exact next v (List.mem_of_getElem? here)
  | @manager i a cs v o ts here step woken =>
    obtain ⟨observers, grows⟩ := step.observers
    constructor
    · intro e mem job x
      rcases List.mem_append.mp mem with old | new
      · exact past e old job x
      · obtain ⟨f, there, rfl⟩ := List.mem_map.mp new
        exact step.calls_nobody f there job x
    · apply jobScheduler.forall_run
        (fun u => ∀ x ∈ u.place.remaining o.shared, 0 < o.shared.useCount x) ?_ woken
      · intro u mem x still
        rw [remaining_congr observers] at still
        exact Nat.lt_of_lt_of_le (next u mem x still) (grows x)
      · intro x still
        rw [remaining_congr observers] at still
        exact Nat.lt_of_lt_of_le
          (next v (List.mem_of_getElem? here) x (step.remaining x still)) (grows x)
      · intro u mem x still
        obtain ⟨ref, rfl⟩ := step.spawned u mem
        cases still
      · exact fun _ _ => id
  | @own i a cs v o here client step =>
    have before := next v (List.mem_of_getElem? here)
    constructor
    · intro e mem job x
      rcases List.mem_append.mp mem with old | new
      · exact past e old job x
      · obtain ⟨f, there, rfl⟩ := List.mem_map.mp new
        exact step.calls_live before f there job x
    · have stays : ∀ u ∈ c.threads, ∀ x ∈ u.place.remaining c.shared, 0 < o.shared.useCount x := by
        intro u mem x still
        rcases step.lives (next u mem x still) with live | ⟨last, lets⟩
        · exact live
        · exact absurd still (ok.spares here lets last u mem)
      have counted := Nat.le_trans (Nat.le_add_left _ _) (refs.le here .scheduler)
      intro u mem x still
      rcases step.registers counted u.place x still with still | live
      · rcases List.mem_or_eq_of_mem_set mem with old | rfl
        · exact stays u old x still
        · rcases step.remaining x still with before | ⟨observed, result, rfl⟩
          · exact stays v (List.mem_of_getElem? here) x before
          · rcases step.lives (ok.split here x observed) with live | ⟨-, lets | ⟨lets, -⟩⟩
            · exact live
            · cases lets
            · cases lets
      · exact live

theorem observerAccount_step (h : ObserverAccount c) (ok : KeepsObservers c mv)
    (change : JobChange c mv c') : ObserverAccount c' where
  fits := fits_step h.fits change
  refs := refsCounted_step h.refs change
  live := callsLive_step h ok change

/-- An observer that is still to be called has not lost its last reference. -/
theorem spared_of_live {i : Nat} {v : Member} {s : JobScheduler} {p : Place}
    {log : List (Nat × JobEvent)} {x : Observer} (here : c.threads[i]? = some v)
    (same : s.observers = c.shared.observers) (lets : s.useCount x = c.shared.useCount x - 1)
    (keeps : x ∈ v.place.remaining c.shared → x ∈ p.remaining c.shared)
    (live : CallsLive ⟨s, c.threads.set i (v.atPlace p), log⟩) : SparesObserver c x := by
  intro last u mem still
  have gone : s.useCount x = 0 := by rw [lets, last]
  have left {w : Member} (after : w ∈ c.threads.set i (v.atPlace p))
      (still : x ∈ w.place.remaining c.shared) : False := by
    have live := live.next w after x (by rwa [remaining_congr same])
    rw [gone] at live
    exact absurd live (Nat.lt_irrefl 0)
  obtain ⟨j, there⟩ := List.mem_iff_getElem?.mp mem
  by_cases own : i = j
  · subst own
    obtain rfl := Option.some.inj (here.symm.trans there)
    exact left (List.mem_set (List.getElem?_eq_some_iff.mp here).1 _) (keeps still)
  · have after := (List.getElem?_set_ne own (a := v.atPlace p)).trans there
    exact left (List.mem_of_getElem? after) still

theorem calls_expired (bad : ¬ KeepsObservers c mv) (change : JobChange c mv c') :
    ¬ CallsLive c' := by
  intro live
  apply bad
  unfold KeepsObservers
  split
  · intro v' same x observed
    cases change with
    | @own _ _ _ v o here client step =>
      obtain rfl := Option.some.inj (here.symm.trans same)
      have inside := (List.getElem?_eq_some_iff.mp here).1
      generalize v.place = p at step observed
      cases step with
      | splits => exact live.next _ (List.mem_set inside _) x observed
  · cases change with
    | @own _ _ _ v o here client step =>
      generalize place : v.place = p at step
      cases step with
      | @drops ob held =>
        apply spared_of_live here ?_ ?_ ?_ live
        · rfl
        · rw [JobScheduler.take_useCount, JobScheduler.letGo_useCount, if_pos rfl]
        · rw [place]
          exact fun none => absurd none List.not_mem_nil
  · intro v' same x held
    cases change with
    | @own _ _ _ v o here client step =>
      obtain rfl := Option.some.inj (here.symm.trans same)
      generalize place : v.place = p at step held
      cases step with
      | @releases job next ob raised =>
        obtain rfl := Option.some.inj held
        apply spared_of_live here ?_ ?_ ?_ live
        · rfl
        · exact (JobScheduler.letGo_useCount _ _ _).trans (by rw [if_pos rfl])
        · rw [place]
          intro still
          dsimp only [releaseBlock]
          rw [afterRelease_remaining]
          cases raised
          · exact still
          · cases still
  · trivial

end Step

theorem observerAccount_newScheduler (workers pendingMax : Nat) (others : Nat → List Nat)
    (refs : Nat → Nat) (client : Nat) (clients : List Nat) :
    ObserverAccount (newScheduler workers pendingMax others refs client clients) where
  fits := fits_newScheduler workers pendingMax others refs client clients
  refs := refsCounted_newScheduler workers pendingMax others refs client clients
  live := by
    refine ⟨nofun, fun v mem x still => ?_⟩
    rcases List.mem_cons.mp mem with rfl | mem
    · cases still
    · obtain ⟨t, -, rfl⟩ := List.mem_map.mp mem
      cases still

/-- Along a schedule only live observers are called exactly if all observers of a job are
alive when its `Split` returns and none expires before its turn. -/
theorem calls_live_iff (workers pendingMax : Nat) (others : Nat → List Nat) (refs : Nat → Nat)
    (client : Nat) (clients : List Nat) (mvs : List (Move JobAct)) :
    jobScheduler.Throughout CallsLive
        (newScheduler workers pendingMax others refs client clients) mvs ↔
      jobScheduler.EachStep KeepsObservers
        (newScheduler workers pendingMax others refs client clients) mvs :=
  Program.throughout_iff ObserverAccount.live
    (fun h ok step => observerAccount_step h ok (jobChange_of_step h.fits step))
    (fun h bad step => calls_expired bad (jobChange_of_step h.fits step))
    (observerAccount_newScheduler workers pendingMax others refs client clients) mvs

/-- The job is split while the destructor waits for its worker. -/
def splitDuringStop : List (Move JobAct) :=
  makeScheduler 1 ++ addAndBegin 1 5 ++ dropAndStop ++
    [.run 1 (.split (.returned true)) [], .run 1 .lock []]

theorem null_observer_called : ∃ c,
    jobScheduler.Reach (newScheduler 1 0 (fun _ => []) (fun _ => 0) 1 []) c ∧ ¬ CallsLive c ∧
    (1, .calledNull 5 .scheduler) ∈ c.log ∧ c.shared.impl.state = .stopping ∧
    (c.threads[0]?).map (fun v => v.thread.call) = some (.removedParked (.stopImpl false)) := by
  obtain ⟨c, reach, called, stopping, waits⟩ := jobScheduler.exists_reach
    (newScheduler 1 0 (fun _ => []) (fun _ => 0) 1 [])
    (fun c => (1, .calledNull 5 .scheduler) ∈ c.log ∧ c.shared.impl.state = .stopping ∧
      (c.threads[0]?).map (fun v => v.thread.call) = some (.removedParked (.stopImpl false)))
    splitDuringStop (by decide)
  exact ⟨c, reach, fun live => live.past _ called 5 .scheduler rfl, called, stopping, waits⟩

end Threads.Splitter
