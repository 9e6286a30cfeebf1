import Mathlib.Algebra.BigOperators.Ring.List
import Threads.Manager.Growing

/-!
# Thread creations that fail

`SimpleThread::Start` drops the result of `pthread_create`. `AddWorker` has raised
`worker_max_count_` for all its threads before it starts the first one, so it waits
for those that were never created as well.
-/

namespace Threads.Manager

open Concurrency

/-- The blocks of `AddWorker`; `starts` says of which thread objects the creation
succeeds. -/
def CallAct.creates (starts : Nat → Bool) (d : Call) : CallAct → Bool
  | .newThreads | .raise | .register | .awaitAdded => true
  | .startThread created =>
    match d with
    | .startThreads (object :: _) => created.isSome == starts object
    | _ => false
  | _ => false

/-- Workers run, and the calls of `AddWorker` under way go on. -/
def Creates (starts : Nat → Bool) (c : Config Impl Thread Event) : Move Act → Prop
  | .run i (.call a) _ => (c.threads[i]?).any (fun t => a.creates starts t.call) = true
  | _ => True

instance (starts : Nat → Bool) (c : Config Impl Thread Event) : DecidablePred (Creates starts c)
  | .spurious _ | .run _ (.worker _) _ => isTrue trivial
  | .run i (.call _) _ => inferInstanceAs (Decidable ((c.threads[i]?).any _ = true))

/-- One for a call that is about to create the objects of its threads. -/
def creating : Call → Nat
  | .newThreads _ => 1
  | _ => 0

/-- One for a call of `AddWorker`. -/
def adding : Call → Nat
  | .newThreads _ | .addWorker _ => 1
  | .startThreads _ | .register _ _ | .awaitAdded | .addedParked => 1
  | _ => 0

instance : SteadyCall creating := ⟨fun c => by cases c <;> rfl⟩
instance : SteadyCall adding := ⟨fun c => by cases c <;> rfl⟩

/-- A complete pool, and one client about to execute `AddWorker(n)`. -/
structure AboutToAdd (n : Nat) (c : Config Impl Thread Event) : Prop where
  alive : c.shared.terminated = false
  factory : c.shared.threadFactory = true
  complete : c.shared.workerCount = c.shared.workerMaxCount
  counts : CountsActivated c
  workers : ∀ t ∈ c.threads, t.worker.settled = true
  calls : ∀ t ∈ c.threads, t.call = .none ∨ t.call = .newThreads n
  one : total (onCall creating) c.threads = 1

instance (n : Nat) (c : Config Impl Thread Event) : Decidable (AboutToAdd n c) :=
  decidable_of_iff (c.shared.terminated = false ∧ c.shared.threadFactory = true ∧
    c.shared.workerCount = c.shared.workerMaxCount ∧ CountsActivated c ∧
    (∀ t ∈ c.threads, t.worker.settled = true) ∧
    (∀ t ∈ c.threads, t.call = .none ∨ t.call = .newThreads n) ∧
    total (onCall creating) c.threads = 1)
    ⟨fun ⟨a, b, d, e, f, g, h⟩ => ⟨a, b, d, e, f, g, h⟩,
      fun ⟨a, b, d, e, f, g, h⟩ => ⟨a, b, d, e, f, g, h⟩⟩

/-- `AddWorker` is parked, and no thread is left that could notify it. -/
structure AwaitsNobody (c : Config Impl Thread Event) : Prop where
  parked : ∃ t ∈ c.threads, t.call = .addedParked
  entered : arriving c.threads = 0
  announced : total (onWorker announcing) c.threads = 0

instance (c : Config Impl Thread Event) : Decidable (AwaitsNobody c) :=
  decidable_of_iff ((∃ t ∈ c.threads, t.call = .addedParked) ∧ arriving c.threads = 0 ∧
    total (onWorker announcing) c.threads = 0)
    ⟨fun ⟨a, b, d⟩ => ⟨a, b, d⟩, fun ⟨a, b, d⟩ => ⟨a, b, d⟩⟩

/-- The threads started since `c₀`. -/
def startedSince (c₀ c : Config Impl Thread Event) : List ThreadRef :=
  (c.threads.drop c₀.threads.length).map Thread.ref

/-- `worker_max_count_`, `workers_` and `id_map_` account for the threads that were
really started. -/
structure AccountsStarted (c₀ c : Config Impl Thread Event) : Prop where
  limit : c.shared.workerMaxCount = c₀.shared.workerMaxCount + (startedSince c₀ c).length
  workers : ∀ object, object ∈ c.shared.workers ↔
    object ∈ c₀.shared.workers ∨ ∃ ref ∈ startedSince c₀ c, ref.object = object
  ids : ∀ id, (∃ ref ∈ c.shared.idMap, ref.id = id) ↔
    (∃ ref ∈ c₀.shared.idMap, ref.id = id) ∨ ∃ ref ∈ startedSince c₀ c, ref.id = id

/-- `AddWorker(n)` never waits for workers that do not exist: it returns with `n` more
workers active, or throws with exact accounts. -/
structure GrowsOrThrows (n : Nat) (c₀ c : Config Impl Thread Event) : Prop where
  served : ¬ AwaitsNobody c
  returned : (∃ e ∈ c.log.drop c₀.log.length, e.2 = .returned .addWorker) →
    total (onWorker activated) c.threads = total (onWorker activated) c₀.threads + n
  threw : ∀ e, (∃ i, (i, Event.threw .addWorker e) ∈ c.log.drop c₀.log.length) →
    AccountsStarted c₀ c

/-! ## The pool before the call -/

section About

variable {n : Nat} {c : Config Impl Thread Event}

theorem AboutToAdd.worker (h : AboutToAdd n c) (f : Worker → Nat)
    (zero : ∀ w, w.settled = true → f w = 0) : total (onWorker f) c.threads = 0 :=
  total_eq_zero.mpr fun t mem => zero _ (h.workers t mem)

theorem AboutToAdd.call (h : AboutToAdd n c) (f : Call → Nat) (none : f .none = 0) :
    total (onCall f) c.threads = f (.newThreads n) := by
  have scaled : total (onCall f) c.threads =
      total (fun t => f (.newThreads n) * onCall creating t) c.threads := by
    refine total_congr (List.forall₂_same.mpr fun t mem => ?_)
    unfold onCall
    rcases h.calls t mem with idle | about
    · rw [idle, none]
      rfl
    · rw [about]
      exact (Nat.mul_one _).symm
  have one := h.one
  unfold total at one scaled ⊢
  rw [scaled, List.sum_map_mul_left, one, Nat.mul_one]

theorem AboutToAdd.caller (h : AboutToAdd n c) : ∃ (i : Nat) (t : Thread),
    c.threads[i]? = some t ∧ t.call = .newThreads n ∧ t.worker.makesCalls = true := by
  obtain ⟨i, t, here, positive⟩ := exists_of_total_pos (h.one ▸ Nat.one_pos :
    0 < total (onCall creating) c.threads)
  have place : t.call = .newThreads n := by
    rcases h.calls t (List.mem_of_getElem? here) with none | creates
    · simp [onCall, none, creating] at positive
    · exact creates
  refine ⟨i, t, here, place, ?_⟩
  rcases t.calm with working | idle
  · exact working
  · rw [place] at idle
    cases idle

end About

/-! ## A failed creation -/

/-- With one creation that fails, not all of them succeed. -/
theorem countP_starts_lt {starts : Nat → Bool} {first n k : Nat} (bound : k < n)
    (fails : starts (first + k) = false) : (List.range' first n).countP starts < n := by
  have length : (List.range' first n).length = n := List.length_range'
  refine Nat.lt_of_le_of_ne (List.countP_le_length.trans_eq length) ?_
  intro all
  have succeeds := List.countP_eq_length.mp (all.trans length.symm) (first + k)
    (List.mem_range'_1.mpr ⟨Nat.le_add_right _ _, Nat.add_lt_add_left bound first⟩)
  rw [fails] at succeeds
  cases succeeds

section Fails

variable {starts : Nat → Bool} {c : Config Impl Thread Event} {i : Nat}

/-- The caller is at `d` with these objects still to start, and with all threads on
their way the pool stays short. -/
structure Short (starts : Nat → Bool) (i : Nat) (d : Call) (objects : List Nat)
    (c : Config Impl Thread Event) : Prop where
  alive : c.shared.terminated = false
  caller : ∃ t, c.threads[i]? = some t ∧ t.worker.makesCalls = true ∧ t.call = d
  short : c.shared.workerCount + total (onWorker entering) c.threads + objects.countP starts <
    c.shared.workerMaxCount
  started : total (onCall toStart) c.threads = toStart d
  announced : total (onWorker announcing) c.threads = 0

/-- One more thread enters, and finds the pool still incomplete. -/
theorem Short.enter (h : Short starts i .addedParked [] c)
    (some : 0 < total (onWorker entering) c.threads) :
    ∃ c', threadManager.Run (Creates starts) c c' ∧ Short starts i .addedParked [] c' ∧
      total (onWorker entering) c'.threads + 1 = total (onWorker entering) c.threads := by
  obtain ⟨j, t, here, positive⟩ := exists_of_total_pos some
  have place : t.worker = .entry := by
    unfold onWorker at positive
    revert positive
    cases t.worker <;> simp [entering]
  have idle : t.call = .none := by
    rcases t.calm with working | idle
    · rw [place] at working
      cases working
    · exact idle
  have short := h.short
  have room : c.shared.workerCount < c.shared.workerMaxCount := by omega
  have fires : workerBlock c.shared t.ref t.worker .enter = Option.some
      { shared := { c.shared with workerCount := c.shared.workerCount + 1 }, self := .loop } := by
    have incomplete : ¬ c.shared.workerCount + 1 = c.shared.workerMaxCount := by omega
    rw [place]
    simp [workerBlock, enterBlock, room, incomplete]
  have next := step_worker h.alive here idle fires rfl rfl
  have refl := Program.Woken.refl threadManager c.threads
  have entered := total_worker entering refl here idle .loop
  have announced := total_worker announcing refl here idle .loop
  have starting := total_worker_call toStart refl here idle .loop
  have one : entering t.worker = 1 ∧ announcing t.worker = 0 := by
    rw [place]
    exact ⟨rfl, rfl⟩
  have loop : entering .loop = 0 ∧ announcing .loop = 0 := ⟨rfl, rfl⟩
  have quiet := h.announced
  have ok : Creates starts c (.run j (.worker .enter) []) := trivial
  refine ⟨_, .tail .refl ok next, ⟨h.alive, ?_, ?_, ?_, ?_⟩, ?_⟩
  · obtain ⟨u, there, caller⟩ := h.caller
    by_cases own : i = j
    · subst own
      rw [here] at there
      obtain rfl := Option.some.inj there
      rw [idle] at caller
      cases caller.2
    · exact ⟨u, (List.getElem?_set_ne (Ne.symm own)).trans there, caller⟩
  · dsimp only
    omega
  · exact starting.trans h.started
  · dsimp only
    omega
  · dsimp only
    omega

theorem Short.awaitsNobody (h : Short starts i .addedParked [] c) :
    ∃ c', threadManager.Run (Creates starts) c c' ∧ AwaitsNobody c' := by
  induction m : total (onWorker entering) c.threads generalizing c with
  | zero =>
    obtain ⟨t, here, -, parked⟩ := h.caller
    refine ⟨c, .refl, ⟨t, List.mem_of_getElem? here, parked⟩, ?_, h.announced⟩
    rw [arriving, m, h.started]
    rfl
  | succ m ih =>
    obtain ⟨c₁, first, later, fewer⟩ := h.enter (by omega)
    obtain ⟨c', rest, stuck⟩ := ih later (by omega)
    exact ⟨c', first.trans rest, stuck⟩

/-- A block of a call has been taken, and nobody was notified by it. -/
structure Taken (i : Nat) (t : Thread) (o : Effect Call) (c c' : Config Impl Thread Event) :
    Prop where
  shared : c'.shared = o.shared
  caller : ∃ t', c'.threads[i]? = some t' ∧ t'.ref = t.ref ∧ t'.worker = t.worker ∧ t'.call = o.self
  worker : ∀ (f : Worker → Nat) [Steady f],
    total (onWorker f) c'.threads = total (onWorker f) c.threads + total (onWorker f) o.spawned
  call : ∀ (f : Call → Nat) [SteadyCall f],
    total (onCall f) c'.threads + f t.call =
      total (onCall f) c.threads + f o.self + total (onCall f) o.spawned

theorem exists_taken {t : Thread} {a : CallAct} {o : Effect Call}
    (alive : c.shared.terminated = false)
    (here : c.threads[i]? = some t) (makesCalls : t.worker.makesCalls = true)
    (fires : callBlock c.shared t.ref.id t.call a = some o) (silent : o.signals = []) :
    ∃ c', threadManager.Step c (.run i (.call a) []) c' ∧ Taken i t o c c' := by
  have bound : i < c.threads.length := (List.getElem?_eq_some_iff.mp here).1
  have refl := Program.Woken.refl threadManager c.threads
  refine ⟨_, step_call alive here makesCalls fires silent, rfl, ?_, ?_, ?_⟩
  · refine ⟨t.withCall makesCalls o.self, ?_, rfl, rfl, rfl⟩
    dsimp only
    rw [List.getElem?_append_left (by simpa using bound), List.getElem?_set_self bound]
  · intro f steady
    exact total_call_worker f refl here makesCalls o.self o.spawned
  · intro f steady
    exact total_call f refl here makesCalls o.self o.spawned

/-- The caller's own next block, which starts what it takes off the list. -/
theorem Short.call {d : Call} {objects : List Nat} (h : Short starts i d objects c)
    {a : CallAct} {o : Effect Call} (left : List Nat)
    (fires : ∀ id, callBlock c.shared id d a = some o)
    (creates : a.creates starts d = true) (silent : o.signals = [])
    (pool : o.shared.terminated = false ∧ o.shared.workerCount = c.shared.workerCount ∧
      o.shared.workerMaxCount = c.shared.workerMaxCount)
    (spawns : total (onWorker entering) o.spawned + left.countP starts = objects.countP starts)
    (quiet : total (onWorker announcing) o.spawned = 0 ∧ total (onCall toStart) o.spawned = 0) :
    ∃ c', threadManager.Run (Creates starts) c c' ∧ Short starts i o.self left c' := by
  obtain ⟨t, here, makesCalls, place⟩ := h.caller
  obtain ⟨c', next, taken⟩ := exists_taken h.alive here makesCalls (place ▸ fires t.ref.id) silent
  have ok : Creates starts c (.run i (.call a) []) := by
    simp [Creates, here, place, creates]
  have entered := taken.worker entering
  have announced := taken.worker announcing
  have starting := taken.call toStart
  have short := h.short
  have started := h.started
  have noneAnnounced := h.announced
  rw [place] at starting
  obtain ⟨t', there, -, worker, self⟩ := taken.caller
  refine ⟨c', .tail .refl ok next, ?_, ⟨t', there, worker ▸ makesCalls, self⟩, ?_, ?_, ?_⟩
  · rw [taken.shared]
    exact pool.1
  · rw [taken.shared]
    omega
  · omega
  · omega

/-- `Start` on the next object, whether it creates a thread or not, and `id_map_.insert`. -/
theorem Short.start {object : Nat} {objects : List Nat}
    (h : Short starts i (.startLoop (object :: objects)) (object :: objects) c) :
    ∃ c', threadManager.Run (Creates starts) c c' ∧
      Short starts i (.startLoop objects) objects c' := by
  obtain ⟨ref, c₁, first, h₁⟩ : ∃ ref c₁, threadManager.Run (Creates starts) c c₁ ∧
      Short starts i (.register ref objects) objects c₁ := by
    cases succeeds : starts object with
    | true =>
      obtain ⟨c₁, first, h₁⟩ := h.call (a := .startThread (some 1)) objects
        (fun _ => rfl) (by simp [CallAct.creates, Call.startLoop, succeeds]) rfl
        ⟨h.alive, rfl, rfl⟩ (by simp [startThreadBlock, onWorker, entering, succeeds, Nat.add_comm])
        ⟨rfl, rfl⟩
      exact ⟨_, c₁, first, h₁⟩
    | false =>
      obtain ⟨c₁, first, h₁⟩ := h.call (a := .startThread none) objects
        (fun _ => rfl) (by simp [CallAct.creates, Call.startLoop, succeeds]) rfl
        ⟨h.alive, rfl, rfl⟩ (by simp [startThreadBlock, succeeds]) ⟨rfl, rfl⟩
      exact ⟨_, c₁, first, h₁⟩
  obtain ⟨c', second, h'⟩ := h₁.call (a := .register) objects (fun _ => rfl) rfl rfl
    ⟨h₁.alive, rfl, rfl⟩ (Nat.zero_add _) ⟨rfl, rfl⟩
  exact ⟨c', first.trans second, h'⟩

theorem Short.startAll {objects : List Nat} (h : Short starts i (.startLoop objects) objects c) :
    ∃ c', threadManager.Run (Creates starts) c c' ∧ Short starts i .awaitAdded [] c' := by
  induction objects generalizing c with
  | nil => exact ⟨c, .refl, h⟩
  | cons object objects ih =>
    obtain ⟨c₁, first, h₁⟩ := h.start
    obtain ⟨c', rest, h'⟩ := ih h₁
    exact ⟨c', first.trans rest, h'⟩

/-- The caller tests the counts before any of its threads has entered. -/
theorem Short.waits (h : Short starts i .awaitAdded [] c) :
    ∃ c', threadManager.Run (Creates starts) c c' ∧ Short starts i .addedParked [] c' := by
  have short := h.short
  have differ : c.shared.workerCount ≠ c.shared.workerMaxCount := by omega
  exact h.call (a := .awaitAdded) (o := { shared := c.shared, self := .addedParked }) []
    (fun _ => by simp [callBlock, awaitAddedBlock, differ]) rfl rfl ⟨h.alive, rfl, rfl⟩ rfl
    ⟨rfl, rfl⟩

/-- With one creation that fails among the `n`, there is a run in which `AddWorker`
ends up waiting for nobody. -/
theorem AboutToAdd.awaitsNobody {n : Nat} (h : AboutToAdd n c) {k : Nat} (bound : k < n)
    (fails : starts (c.shared.threadAllocs + k) = false) :
    ∃ c', threadManager.Run (Creates starts) c c' ∧ AwaitsNobody c' := by
  obtain ⟨i, t, here, place, makesCalls⟩ := h.caller
  have entered : total (onWorker entering) c.threads = 0 :=
    h.worker entering fun w fine => by cases w <;> first | rfl | cases fine
  have announced : total (onWorker announcing) c.threads = 0 :=
    h.worker announcing fun w fine => by cases w <;> first | rfl | cases fine
  have started : total (onCall toStart) c.threads = 0 := h.call toStart rfl
  let objects := List.range' c.shared.threadAllocs n
  have few : objects.countP starts < n := countP_starts_lt bound fails
  have fires : callBlock c.shared t.ref.id t.call .newThreads =
      some (newThreadsBlock c.shared n) := by
    rw [place]
    simp [callBlock, h.factory]
  obtain ⟨c₁, first, taken₁⟩ := exists_taken h.alive here makesCalls fires rfl
  obtain ⟨t₁, here₁, -, worker₁, call₁⟩ := taken₁.caller
  have alive₁ : c₁.shared.terminated = false := by
    rw [taken₁.shared]
    exact h.alive
  have raises : callBlock c₁.shared t₁.ref.id t₁.call .raise =
      some (raiseBlock c₁.shared objects) := by
    rw [call₁]
    rfl
  obtain ⟨c₂, second, taken₂⟩ := exists_taken alive₁ here₁ (worker₁ ▸ makesCalls) raises rfl
  obtain ⟨t₂, here₂, -, worker₂, call₂⟩ := taken₂.caller
  have complete := h.complete
  have ready : Short starts i (.startLoop objects) objects c₂ := by
    refine ⟨?_, ⟨t₂, here₂, worker₂ ▸ worker₁ ▸ makesCalls, call₂⟩, ?_, ?_, ?_⟩
    · rw [taken₂.shared]
      exact alive₁
    · have entering₁ := taken₁.worker entering
      have entering₂ := taken₂.worker entering
      simp only [raiseBlock, newThreadsBlock, total_nil] at entering₁ entering₂
      have length : objects.length = n := List.length_range'
      simp only [taken₂.shared, raiseBlock, taken₁.shared, newThreadsBlock]
      omega
    · have starting₁ := taken₁.call toStart
      have starting₂ := taken₂.call toStart
      rw [place] at starting₁
      rw [call₁] at starting₂
      simp only [raiseBlock, newThreadsBlock, total_nil, toStart] at starting₁ starting₂ ⊢
      omega
    · have announcing₁ := taken₁.worker announcing
      have announcing₂ := taken₂.worker announcing
      simp only [raiseBlock, newThreadsBlock, total_nil] at announcing₁ announcing₂
      omega
  have ok₁ : Creates starts c (.run i (.call .newThreads) []) := by
    simp [Creates, here, CallAct.creates]
  have ok₂ : Creates starts c₁ (.run i (.call .raise) []) := by
    simp [Creates, here₁, CallAct.creates]
  obtain ⟨c₃, starting, h₃⟩ := ready.startAll
  obtain ⟨c₄, waiting, h₄⟩ := h₃.waits
  obtain ⟨c', entering, stuck⟩ := h₄.awaitsNobody
  have begun : threadManager.Run (Creates starts) c c₂ := .tail (.tail .refl ok₁ first) ok₂ second
  exact ⟨c', ((begun.trans starting).trans waiting).trans entering, stuck⟩

end Fails

/-! ## Creations that all succeed -/

/-- The threads a call is to create objects for. -/
def allocating : Call → Nat
  | .newThreads value => value
  | _ => 0

/-- The threads a call has still to make room for. -/
def planned : Call → Nat
  | .newThreads value => value
  | .addWorker objects => objects.length
  | _ => 0

/-- The thread objects a call has still to start. -/
def Call.objects : Call → List Nat
  | .addWorker objects | .startThreads objects | .register _ objects => objects
  | _ => []

instance : SteadyCall allocating := ⟨fun c => by cases c <;> rfl⟩
instance : SteadyCall planned := ⟨fun c => by cases c <;> rfl⟩

theorem none_of_not_adding {d : Call} (h : d = .none ∨ adding d = 1) (zero : adding d = 0) :
    d = .none := by
  rcases h with none | one
  · exact none
  · omega

/-- What a block of `AddWorker` does as long as all creations succeed. -/
structure Creating (starts : Nat → Bool) (s : Impl) (d : Call) (a : CallAct) (o : Effect Call) :
    Prop where
  grows : a.grows = true
  before : adding d = 1
  after : adding o.self = 1 ∨ o.self = .none ∧ o.shared = s ∧ s.workerCount = s.workerMaxCount
  started : ∀ object ∈ o.self.objects, starts object = true
  limit : o.shared.workerMaxCount + planned o.self = s.workerMaxCount + planned d
  allocs : s.threadAllocs ≤ o.shared.threadAllocs ∧
    o.shared.threadAllocs + allocating o.self = s.threadAllocs + allocating d
  events : o.events = [] ∨ o.events = [.returned .addWorker] ∧ o.self = .none ∧ o.spawned = []

theorem CallStep.creating {starts : Nat → Bool} {s : Impl} {id : Nat} {d : Call} {a : CallAct}
    {o : Effect Call} (h : CallStep s id d a o) (creates : a.creates starts d = true)
    (old : ∀ object ∈ d.objects, starts object = true)
    (new : ∀ k, k < allocating d → starts (s.threadAllocs + k) = true) :
    Creating starts s d a o := by
  cases h with
  | @newThreads value =>
    refine ⟨rfl, rfl, .inl rfl, ?_, ?_, ⟨Nat.le_add_right _ _, rfl⟩, .inl rfl⟩
    · intro object mem
      obtain ⟨low, high⟩ := List.mem_range'_1.mp mem
      obtain ⟨k, rfl⟩ := Nat.exists_eq_add_of_le low
      exact new k (Nat.add_lt_add_iff_left.mp high)
    · simp [newThreadsBlock, planned]
  | @raise objects =>
    cases objects with
    | nil => exact ⟨rfl, rfl, .inl rfl, old, rfl, ⟨Nat.le_refl _, rfl⟩, .inl rfl⟩
    | cons => exact ⟨rfl, rfl, .inl rfl, old, rfl, ⟨Nat.le_refl _, rfl⟩, .inl rfl⟩
  | @startThread object objects created =>
    have rest : ∀ other ∈ objects, starts other = true :=
      fun other mem => old other (List.mem_cons_of_mem object mem)
    cases created with
    | none =>
      have fails : starts object = false := by simpa [CallAct.creates] using creates
      rw [old object List.mem_cons_self] at fails
      cases fails
    | some id => exact ⟨rfl, rfl, .inl rfl, rest, rfl, ⟨Nat.le_refl _, rfl⟩, .inl rfl⟩
  | @register thread objects =>
    cases objects with
    | nil => exact ⟨rfl, rfl, .inl rfl, old, rfl, ⟨Nat.le_refl _, rfl⟩, .inl rfl⟩
    | cons => exact ⟨rfl, rfl, .inl rfl, old, rfl, ⟨Nat.le_refl _, rfl⟩, .inl rfl⟩
  | addedParks => exact ⟨rfl, rfl, .inl rfl, old, rfl, ⟨Nat.le_refl _, rfl⟩, .inl rfl⟩
  | added complete =>
    exact ⟨rfl, rfl, .inr ⟨rfl, rfl, complete⟩, nofun, rfl, ⟨Nat.le_refl _, rfl⟩,
      .inr ⟨rfl, rfl, rfl⟩⟩
  | _ => cases creates

/-- One `AddWorker(n)` over a pool of `limit` workers, the first of its thread objects
being `first`. -/
structure Adding (starts : Nat → Bool) (limit n first : Nat) (c : Config Impl Thread Event) :
    Prop where
  growth : GrowthAccount c
  counts : CountsActivated c
  one : total (onCall adding) c.threads ≤ 1
  calls : ∀ t ∈ c.threads, (t.call = .none ∨ adding t.call = 1) ∧
    ∀ object ∈ t.call.objects, starts object = true
  limit : c.shared.workerMaxCount + total (onCall planned) c.threads = limit + n
  allocs : first ≤ c.shared.threadAllocs ∧
    c.shared.threadAllocs + total (onCall allocating) c.threads = first + n

section Succeeds

variable {starts : Nat → Bool} {limit n first : Nat} {c₀ c c' : Config Impl Thread Event}
    {mv : Move Act}

/-- With one caller there is no second one to leave behind. -/
theorem Adding.wakesLast (h : Adding starts limit n first c) (mv : Move Act) : WakesLast c mv := by
  have noLower := h.growth.grows
  have few : resizers c.threads ≤ total (onCall adding) c.threads := by
    refine total_mono fun t mem => ?_
    have notLowered := le_total (onCall lowered) mem
    rw [parkedIn_thread]
    split
    · rcases waits_workerMonitor_iff.mp ‹_› with added | ⟨caller, removed⟩
      · simp [onCall, added, adding]
      · rw [noLower, onCall, removed] at notLowered
        exact absurd notLowered (Nat.not_le_of_gt Nat.one_pos)
    · exact Nat.zero_le _
  have one := h.one
  cases mv with
  | spurious => trivial
  | run i a cs =>
    cases a with
    | call => trivial
    | worker a => exact fun _ _ _ => few.trans one

theorem Adding.exitsActivated (h : Adding starts limit n first c) (mv : Move Act) :
    ExitsActivated c mv := by
  apply exitsActivated_of_accepted
  have stays := h.growth.stays
  have fewer : total (onWorker refused) c.threads ≤ total (onWorker leaving) c.threads := by
    refine total_mono fun t _ => ?_
    unfold onWorker
    generalize t.worker = w
    cases w with
    | leaving activated => cases activated <;> simp [refused, leaving]
    | _ => exact Nat.zero_le _
  omega

/-- The caller's block is one of `AddWorker` whose creations succeed. -/
theorem Adding.creating (h : Adding starts limit n first c)
    (all : ∀ k, k < n → starts (first + k) = true) {i : Nat} {cs : List Nat} {a : CallAct}
    (ok : Creates starts c (.run i (.call a) cs)) {t : Thread} (here : c.threads[i]? = some t)
    {o : Effect Call} (step : CallStep c.shared t.ref.id t.call a o) :
    Creating starts c.shared t.call a o := by
  have creates : a.creates starts t.call = true := by simpa [Creates, here] using ok
  refine step.creating creates (h.calls t (List.mem_of_getElem? here)).2 fun k bound => ?_
  have own := le_total_of_getElem? (onCall allocating) here
  obtain ⟨low, sum⟩ := h.allocs
  obtain ⟨m, eq⟩ := Nat.exists_eq_add_of_le low
  unfold onCall at own sum
  rw [eq, Nat.add_assoc]
  exact all (m + k) (by omega)

theorem WorkerStep.threadAllocs {s : Impl} {ref : ThreadRef} {w : Worker} {a : WorkerAct}
    {o : Effect Worker} (h : WorkerStep s ref w a o) : o.shared.threadAllocs = s.threadAllocs := by
  cases h with
  | works | wakesAndWorks =>
    obtain ⟨_, _, _, -, eq⟩ := workBlock_shared _ _
    rw [eq]
  | _ => rfl

theorem adding_step (h : Adding starts limit n first c)
    (all : ∀ k, k < n → starts (first + k) = true) (ok : Creates starts c mv)
    (change : Change c mv c') : Adding starts limit n first c' := by
  have counts := countsActivated_step h.counts (h.exitsActivated mv) change
  have creating {i : Nat} {a : CallAct} {cs : List Nat}
      (ok : Creates starts c (.run i (.call a) cs))
      {t : Thread} (here : c.threads[i]? = some t) {o : Effect Call}
      (step : CallStep c.shared t.ref.id t.call a o) := h.creating all ok here step
  have grows : Grows mv := by
    cases change with
    | spurious | worker => trivial
    | call alive here makesCalls place step => exact (creating ok here (place ▸ step)).grows
  have growth := growthAccount_step h.growth grows (h.wakesLast mv) change
  have woken (t : Thread) (waits : t.waitsOn ≠ none)
      (fine : (t.call = .none ∨ adding t.call = 1) ∧
        ∀ object ∈ t.call.objects, starts object = true) :
      (t.wake.call = .none ∨ adding t.wake.call = 1) ∧
        ∀ object ∈ t.wake.call.objects, starts object = true := by
    have objects : t.call.wake.objects = t.call.objects := by cases t.call <;> rfl
    have same : adding t.call.wake = adding t.call := SteadyCall.wake t.call
    show (t.call.wake = .none ∨ adding t.call.wake = 1) ∧ ∀ object ∈ t.call.wake.objects, _
    rwa [objects, same, Call.wake_eq_none]
  obtain ⟨-, -, one, calls, limits, low, allocs⟩ := h
  cases change with
  | @spurious i t here waits =>
    have call (f : Call → Nat) [SteadyCall f] := total_call_spurious f here waits
    refine ⟨growth, counts, ?_, ?_, ?_, low, ?_⟩
    · rwa [call]
    · intro u mem
      rcases List.mem_or_eq_of_mem_set mem with old | rfl
      · exact calls u old
      · exact woken t waits (calls t (List.mem_of_getElem? here))
    · rwa [call]
    · rwa [call]
  | @worker i a cs t w o ts alive here idle place step delivered =>
    have deliver := threadManager.deliver_woken delivered
    have call (f : Call → Nat) [SteadyCall f] := total_worker_call f deliver here idle o.self
    refine ⟨growth, counts, ?_, ?_, ?_, ?_, ?_⟩
    · rwa [call]
    · have every := threadManager.forall_run _ woken deliver calls (t.withWorker idle o.self)
        (calls t (List.mem_of_getElem? here)) [] (fun u mem => absurd mem List.not_mem_nil) i
      simpa only [List.append_nil] using every
    · rw [call, step.workerMaxCount]
      exact limits
    · rw [step.threadAllocs]
      exact low
    · rw [call, step.threadAllocs]
      exact allocs
  | @call i a cs t d o ts alive here makesCalls place step delivered =>
    subst place
    obtain ⟨-, before, after, started, limited, fresh, -⟩ := creating ok here step
    have deliver := threadManager.deliver_woken delivered
    have call (f : Call → Nat) [SteadyCall f] (zero : f .none = 0) :=
      step.moves_calls f zero deliver here makesCalls
    have less : adding o.self ≤ 1 := by cases o.self <;> simp [adding]
    have adds := call adding rfl
    have plans := call planned rfl
    have allocates := call allocating rfl
    refine ⟨growth, counts, ?_, ?_, ?_, fresh.1.trans' low, ?_⟩
    · dsimp only
      omega
    · refine threadManager.forall_run _ woken deliver calls _ ⟨?_, started⟩ _ ?_ i
      · rcases after with more | ⟨none, -⟩
        · exact .inr more
        · exact .inl none
      · intro u mem
        rcases step.spawned with none | ⟨ref, one⟩
        · rw [none] at mem
          cases mem
        · rw [one, List.mem_singleton] at mem
          subst mem
          exact ⟨.inl rfl, fun object mem => absurd mem List.not_mem_nil⟩
    · dsimp only
      omega
    · dsimp only
      omega

/-- What `AddWorker` has reported since `c₀`: no exception, and its return only once it
is over and every thread has entered. -/
structure Reported (c₀ c : Config Impl Thread Event) : Prop where
  longer : c₀.log.length ≤ c.log.length
  threw : ∀ e i, (i, Event.threw .addWorker e) ∉ c.log.drop c₀.log.length
  returned : (∃ e ∈ c.log.drop c₀.log.length, e.2 = .returned .addWorker) →
    total (onCall adding) c.threads = 0 ∧ total (onWorker entering) c.threads = 0

theorem reported_step (h : Adding starts limit n first c) (r : Reported c₀ c)
    (all : ∀ k, k < n → starts (first + k) = true) (ok : Creates starts c mv)
    (change : Change c mv c') : Reported c₀ c' := by
  obtain ⟨longer, threw, returned⟩ := r
  have later {new : List (Nat × Event)} {e : Nat × Event}
      (mem : e ∈ (c.log ++ new).drop c₀.log.length) : e ∈ c.log.drop c₀.log.length ∨ e ∈ new := by
    rwa [List.drop_append_of_le_length longer, List.mem_append] at mem
  cases change with
  | @spurious i t here waits =>
    refine ⟨longer, threw, fun some => ?_⟩
    obtain ⟨ended, entered⟩ := returned some
    exact ⟨(total_call_spurious adding here waits).trans ended,
      (total_worker_spurious entering here waits).trans entered⟩
  | @worker i a cs t w o ts alive here idle place step delivered =>
    have byWorker {e : Nat × Event} (mem : e ∈ o.events.map (Prod.mk i)) : e.2.byWorker = true := by
      obtain ⟨f, old, rfl⟩ := List.mem_map.mp mem
      exact step.events f old
    refine ⟨?_, ?_, ?_⟩
    · dsimp only
      rw [List.length_append]
      omega
    · intro e j mem
      rcases later mem with old | new
      · exact threw e j old
      · cases byWorker new
    · rintro ⟨e, mem, reports⟩
      have old : e ∈ c.log.drop c₀.log.length := by
        rcases later mem with old | new
        · exact old
        · have worker := byWorker new
          rw [reports] at worker
          cases worker
      obtain ⟨ended, entered⟩ := returned ⟨e, old, reports⟩
      have deliver := threadManager.deliver_woken delivered
      have moved := total_worker entering deliver here idle o.self
      have none := step.entering
      dsimp only
      rw [total_worker_call adding deliver here idle o.self]
      exact ⟨ended, by omega⟩
  | @call i a cs t d o ts alive here makesCalls place step delivered =>
    subst place
    have own := le_total_of_getElem? (onCall adding) here
    have one := h.one
    have exact := h.growth.exact
    obtain ⟨-, before, after, -, -, -, events⟩ := h.creating all ok here step
    unfold arriving at exact
    unfold onCall at own
    have mine {e : Nat × Event} (mem : e ∈ o.events.map (Prod.mk i)) :
        e.2 = .returned .addWorker ∧ o.self = .none ∧ o.spawned = [] := by
      obtain ⟨f, old, rfl⟩ := List.mem_map.mp mem
      rcases events with none | ⟨one, ended⟩
      · rw [none] at old
        cases old
      · rw [one, List.mem_singleton] at old
        exact ⟨old, ended⟩
    refine ⟨?_, ?_, ?_⟩
    · dsimp only
      rw [List.length_append]
      omega
    · intro e j mem
      rcases later mem with old | new
      · exact threw e j old
      · cases (mine new).1
    · rintro ⟨e, mem, reports⟩
      obtain ⟨ended, childless⟩ : o.self = .none ∧ o.spawned = [] := by
        rcases later mem with old | new
        · have ended := (returned ⟨e, old, reports⟩).1
          unfold onCall at ended
          omega
        · exact (mine new).2
      rw [ended] at after
      obtain ⟨-, -, complete⟩ := after.resolve_left (by decide)
      have deliver := threadManager.deliver_woken delivered
      have adds := total_call adding deliver here makesCalls o.self o.spawned
      have enters := total_call_worker entering deliver here makesCalls o.self o.spawned
      rw [childless, total_nil, ended] at adds enters
      dsimp only
      rw [childless, ended]
      unfold onCall at one adds ⊢
      have zero : adding .none = 0 := rfl
      exact ⟨by omega, by omega⟩

theorem Adding.growsOrThrows (h : Adding starts limit n first c) (r : Reported c₀ c)
    (before : total (onWorker activated) c₀.threads = limit) : GrowsOrThrows n c₀ c := by
  refine ⟨?_, ?_, fun e ⟨i, mem⟩ => absurd mem (r.threw e i)⟩
  · rintro ⟨parked, entered, announced⟩
    have exact := h.growth.exact
    unfold arriving at entered exact
    exact h.growth.not_stuck ⟨by omega, announced, by omega, parked⟩
  · intro returned
    obtain ⟨ended, entered⟩ := r.returned returned
    have idle (f : Call → Nat) (zero : f .none = 0) : total (onCall f) c.threads = 0 :=
      total_eq_zero.mpr fun t mem => by
        have none := none_of_not_adding (h.calls t mem).1 (total_eq_zero.mp ended t mem)
        rw [onCall, none, zero]
    have exact := h.growth.exact
    have counts := h.counts
    have limits := h.limit
    unfold CountsActivated at counts
    rw [arriving, entered, idle toStart rfl] at exact
    rw [idle planned rfl] at limits
    omega

end Succeeds

/-! ## The whole call -/

section About

variable {n : Nat} {c : Config Impl Thread Event}

theorem AboutToAdd.adding (h : AboutToAdd n c) (starts : Nat → Bool) :
    Adding starts c.shared.workerMaxCount n c.shared.threadAllocs c := by
  have entered : total (onWorker entering) c.threads = 0 :=
    h.worker entering fun w fine => by cases w <;> first | rfl | cases fine
  have left : total (onWorker leaving) c.threads = 0 :=
    h.worker leaving fun w fine => by cases w <;> first | rfl | cases fine
  have nobody : resizers c.threads = 0 := total_eq_zero.mpr fun t mem => by
    rw [parkedIn_thread, if_neg]
    intro waits
    rcases waits_workerMonitor_iff.mp waits with parked | ⟨caller, parked⟩
    · rcases h.calls t mem with call | call <;> rw [parked] at call <;> cases call
    · rcases h.calls t mem with call | call <;> rw [parked] at call <;> cases call
  refine ⟨⟨?_, left, h.call lowered rfl, fun some => ?_⟩, h.counts, ?_, fun t mem => ?_, ?_,
    Nat.le_refl _, ?_⟩
  · rw [arriving, entered, h.call toStart rfl]
    exact h.complete
  · omega
  · exact Nat.le_of_eq (h.call Manager.adding rfl)
  · rcases h.calls t mem with call | call
    · rw [call]
      exact ⟨.inl rfl, fun object mem => absurd mem List.not_mem_nil⟩
    · rw [call]
      exact ⟨.inr rfl, fun object mem => absurd mem List.not_mem_nil⟩
  · rw [h.call planned rfl]
    rfl
  · rw [h.call allocating rfl]
    rfl

end About

/-- Whatever the schedule, `AddWorker(n)` is never left waiting, and returns with `n` more
workers, exactly if all of its `n` creations succeed. -/
theorem addWorker_survives_iff {n : Nat} {c₀ : Config Impl Thread Event} (h : AboutToAdd n c₀)
    (starts : Nat → Bool) :
    (∀ c, threadManager.Run (Creates starts) c₀ c → GrowsOrThrows n c₀ c) ↔
      ∀ k, k < n → starts (c₀.shared.threadAllocs + k) = true := by
  constructor
  · intro survives k bound
    by_contra fails
    obtain ⟨c, run, stuck⟩ := h.awaitsNobody bound (by simpa using fails)
    exact (survives c run).served stuck
  · intro all c run
    have started : Reported c₀ c₀ := by
      refine ⟨Nat.le_refl _, ?_, ?_⟩
      · intro e i mem
        rw [List.drop_length] at mem
        cases mem
      · rintro ⟨e, mem, -⟩
        rw [List.drop_length] at mem
        cases mem
    let inv c := Adding starts c₀.shared.workerMaxCount n c₀.shared.threadAllocs c ∧ Reported c₀ c
    have keeps {c c' : Config Impl Thread Event} {mv : Move Act} : inv c → Creates starts c mv →
        threadManager.Step c mv c' → inv c' := fun ⟨adding, reported⟩ ok next =>
      ⟨adding_step adding all ok (change_of_step next),
        reported_step adding reported all ok (change_of_step next)⟩
    have init : inv c₀ := ⟨h.adding starts, started⟩
    obtain ⟨adding, reported⟩ := run.invariant init keeps
    exact adding.growsOrThrows reported (h.counts.symm.trans h.complete)

/-- One client about to add two workers to an empty pool. -/
def aboutToAddTwo : Config Impl Thread Event where
  shared := { threadFactory := true }
  threads := [{ ref := ⟨0, 1⟩, call := .newThreads 2 }]

theorem addWorker_survives_iff_two : AboutToAdd 2 aboutToAddTwo ∧
    ∀ c, threadManager.Run (Creates fun _ => true) aboutToAddTwo c →
      GrowsOrThrows 2 aboutToAddTwo c := by
  have about : AboutToAdd 2 aboutToAddTwo := by decide
  exact ⟨about, (addWorker_survives_iff about fun _ => true).mpr fun _ _ => rfl⟩

/-- `AddWorker(1)` goes on to its wait although its only thread was not created. -/
def addWithoutThread : List (Move Act) :=
  [.run 0 (.call .newThreads) [], .run 0 (.call .raise) [], .run 0 (.call (.startThread none)) [],
    .run 0 (.call .register) [], .run 0 (.call .awaitAdded) []]

theorem failed_creation_hangs : ∃ c₀, threadManager.Reach (fresh [1]) c₀ ∧ AboutToAdd 1 c₀ ∧
    ∃ c, threadManager.Run (Creates fun _ => false) c₀ c ∧ AwaitsNobody c ∧ ¬ GrowsOrThrows 1 c₀ c ∧
      c.shared.workerMaxCount = 1 ∧ c.shared.workerCount = 0 := by
  obtain ⟨c₀, reach, about, fires⟩ := threadManager.exists_reach (fresh [1])
    (fun c₀ => AboutToAdd 1 c₀ ∧ (threadManager.execWhile (Creates fun _ => false) c₀
      addWithoutThread).any (fun c => decide (AwaitsNobody c ∧ c.shared.workerMaxCount = 1 ∧
        c.shared.workerCount = 0)) = true)
    [.run 0 (.call (.setThreadFactory true)) [], .run 0 (.call (.addWorker 1)) []] (by decide)
  obtain ⟨c, run, stuck, limit, count⟩ := threadManager.exists_run _ c₀ _ addWithoutThread fires
  exact ⟨c₀, reach, about, c, run, stuck, fun h => h.served stuck, limit, count⟩

end Threads.Manager
