import Threads.Concurrency.Run
import Mathlib.Data.List.Pairwise

/-!
# `SimpleThread`

A thread object that is not detached, between its clients and its own `ThreadMain`. All of
them hold it by `shared_ptr`; the last one to let go runs `~SimpleThread`, which joins the
thread unless `detached_` says that this has been done.
-/

namespace Threads.Factory

open Concurrency

/-! ## The code -/

/-- `SimpleThread::StateEnum` -/
inductive StateEnum where
  | uninitialized
  | starting
  | started
  | stopping
  | stopped
  deriving DecidableEq, Repr

structure SimpleThread where
  state : StateEnum := .uninitialized
  detached : Bool
  /-- The number of `shared_ptr`s to the object. -/
  useCount : Nat
  /-- The pthread has ended. -/
  exited : Bool := false
  /-- A client is in `Join`; its calls do not overlap. -/
  joining : Bool := false
  destroyed : Bool := false
  deriving DecidableEq, Repr

/-- Where a thread stands: a client with its handles, or the thread of the object. -/
inductive Place where
  | client (handles : Nat)
  /-- In `pthread_join`, called by `Join` through one more handle. -/
  | joining (handles : Nat)
  /-- In `pthread_join`, called by `~SimpleThread`. -/
  | destroying
  /-- Before `ThreadMain` tests `state_`. -/
  | entering
  | running
  /-- `ThreadMain` returns, with `thread` still in its hands. -/
  | returning
  | leaving
  | ended
  deriving DecidableEq, Repr

inductive ThreadAct where
  | acquire
  | drop
  | join
  /-- `pthread_join` returns. -/
  | joined
  | enter
  | finish
  | dropOwn
  | exit
  deriving DecidableEq, Repr

/-- The calls of `pthread_join` and whether they succeed. -/
inductive ThreadEvent where
  | called
  | returned (success : Bool)
  deriving DecidableEq, Repr

/-- No condition variable is used. -/
abbrev ThreadEffect (Self : Type) := Outcome SimpleThread Self Place ThreadEvent Empty

/-- `SimpleThreadFactory::Impl::NewThread`; its result is the one handle. -/
def newThread (detached : Bool) : SimpleThread := { detached := detached, useCount := 1 }

/-- `Start` when `pthread_create` succeeds; `self_ref` goes to `ThreadMain`. -/
def SimpleThread.start (s : SimpleThread) : SimpleThread :=
  if s.state ≠ .uninitialized then s
  else { s with state := .starting, useCount := s.useCount + 1 }

/-- `Join` gets as far as `pthread_join`. -/
def SimpleThread.joinable (s : SimpleThread) : Bool := !s.detached && s.state != .uninitialized

def joinBlock (s : SimpleThread) (handles : Nat) : ThreadEffect Place :=
  if s.joinable then
    { shared := { s with joining := true }, self := .joining handles, events := [.called] }
  else { shared := s, self := .client (handles + 1) }

/-- `~SimpleThread` on the thread of the object: `pthread_join` fails with `EDEADLK`. -/
def destroyOwnBlock (s : SimpleThread) : ThreadEffect Place :=
  if !s.detached && s.joinable then
    { shared := { s with detached := false, destroyed := true }
      self := .leaving
      events := [.called, .returned false] }
  else { shared := { s with destroyed := true }, self := .leaving }

/-- `~SimpleThread` on a client, up to `pthread_join`. -/
def destroyBlock (s : SimpleThread) : ThreadEffect Place :=
  if !s.detached && s.joinable then { shared := s, self := .destroying, events := [.called] }
  else { shared := { s with destroyed := true }, self := .client 0 }

def letGo (s : SimpleThread) : SimpleThread := { s with useCount := s.useCount - 1 }

def dropBlock (s : SimpleThread) (handles : Nat) : ThreadEffect Place :=
  if (letGo s).useCount = 0 then destroyBlock (letGo s)
  else { shared := letGo s, self := .client handles }

def dropOwnBlock (s : SimpleThread) : ThreadEffect Place :=
  if (letGo s).useCount = 0 then destroyOwnBlock (letGo s)
  else { shared := letGo s, self := .leaving }

/-- The test of `state_` at the beginning of `ThreadMain`. -/
def enterBlock (s : SimpleThread) : ThreadEffect Place :=
  if s.state ≠ .starting then { shared := s, self := .returning }
  else { shared := { s with state := .started }, self := .running }

def finishBlock (s : SimpleThread) : ThreadEffect Place :=
  if s.state ≠ .stopping ∧ s.state ≠ .stopped then
    { shared := { s with state := .stopping }, self := .returning }
  else { shared := s, self := .returning }

/-- A client may get a handle from whoever has one, or from `Runnable::GetThread`. -/
def threadBlock (s : SimpleThread) : Place → ThreadAct → Option (ThreadEffect Place)
  | .client handles, .acquire =>
    if 0 < s.useCount then
      some { shared := { s with useCount := s.useCount + 1 }, self := .client (handles + 1) }
    else none
  | .client (handles + 1), .drop => some (dropBlock s handles)
  | .client (handles + 1), .join => if s.joining then none else some (joinBlock s handles)
  | .joining handles, .joined =>
    if s.exited then
      some
        { shared := { s with detached := true, joining := false }
          self := .client (handles + 1)
          events := [.returned true] }
    else none
  | .destroying, .joined =>
    if s.exited then
      some
        { shared := { s with detached := true, destroyed := true }
          self := .client 0
          events := [.returned true] }
    else none
  | .entering, .enter => some (enterBlock s)
  | .running, .finish => some (finishBlock s)
  | .returning, .dropOwn => some (dropOwnBlock s)
  | .leaving, .exit => some { shared := { s with exited := true }, self := .ended }
  | _, _ => none

/-- The thread of the object and its clients. -/
def simpleThread : Program SimpleThread Place ThreadAct ThreadEvent Empty where
  waitsOn _ := none
  wake := id
  wake_awake _ := rfl
  block := threadBlock

/-- A client has made the thread, not detached, and has started it. -/
def startedThread (others : Nat) : Config SimpleThread Place ThreadEvent where
  shared := (newThread false).start
  threads := .entering :: .client 1 :: List.replicate others (.client 0)

/-! ## What a step can do -/

inductive ThreadStep (s : SimpleThread) : Place → ThreadAct → ThreadEffect Place → Prop
  | acquires {n} (alive : 0 < s.useCount) :
      ThreadStep s (.client n) .acquire
        { shared := { s with useCount := s.useCount + 1 }, self := .client (n + 1) }
  | drops {n} (others : s.useCount - 1 ≠ 0) :
      ThreadStep s (.client (n + 1)) .drop { shared := letGo s, self := .client n }
  | destroys {n} (last : s.useCount - 1 = 0) :
      ThreadStep s (.client (n + 1)) .drop (destroyBlock (letGo s))
  | joins {n} (alone : s.joining = false) :
      ThreadStep s (.client (n + 1)) .join (joinBlock s n)
  | joined {n} (exited : s.exited = true) :
      ThreadStep s (.joining n) .joined
        { shared := { s with detached := true, joining := false }
          self := .client (n + 1)
          events := [.returned true] }
  | destroyed (exited : s.exited = true) :
      ThreadStep s .destroying .joined
        { shared := { s with detached := true, destroyed := true }
          self := .client 0
          events := [.returned true] }
  | enters : ThreadStep s .entering .enter (enterBlock s)
  | finishes : ThreadStep s .running .finish (finishBlock s)
  | dropsOwn (others : s.useCount - 1 ≠ 0) :
      ThreadStep s .returning .dropOwn { shared := letGo s, self := .leaving }
  | destroysOwn (last : s.useCount - 1 = 0) :
      ThreadStep s .returning .dropOwn (destroyOwnBlock (letGo s))
  | exits : ThreadStep s .leaving .exit { shared := { s with exited := true }, self := .ended }

theorem threadStep_of_block {s : SimpleThread} {p : Place} {a : ThreadAct}
    {o : ThreadEffect Place} (h : threadBlock s p a = some o) : ThreadStep s p a o := by
  unfold threadBlock at h
  split at h
  case h_1 =>
    split at h
    · obtain rfl := Option.some.inj h
      exact .acquires ‹_›
    · cases h
  case h_2 =>
    obtain rfl := Option.some.inj h
    unfold dropBlock
    split
    · exact .destroys ‹_›
    · exact .drops ‹_›
  case h_3 =>
    split at h
    · cases h
    · obtain rfl := Option.some.inj h
      exact .joins (Bool.eq_false_iff.mpr ‹_›)
  case h_4 =>
    split at h
    · obtain rfl := Option.some.inj h
      exact .joined ‹_›
    · cases h
  case h_5 =>
    split at h
    · obtain rfl := Option.some.inj h
      exact .destroyed ‹_›
    · cases h
  case h_6 =>
    obtain rfl := Option.some.inj h
    exact .enters
  case h_7 =>
    obtain rfl := Option.some.inj h
    exact .finishes
  case h_8 =>
    obtain rfl := Option.some.inj h
    unfold dropOwnBlock
    split
    · exact .destroysOwn ‹_›
    · exact .dropsOwn ‹_›
  case h_9 =>
    obtain rfl := Option.some.inj h
    exact .exits
  case h_10 => cases h

theorem destroyBlock_quiet (s : SimpleThread) :
    (destroyBlock s).signals = [] ∧ (destroyBlock s).spawned = [] := by
  unfold destroyBlock
  split
  · exact ⟨rfl, rfl⟩
  · exact ⟨rfl, rfl⟩

theorem ThreadStep.quiet {s : SimpleThread} {p : Place} {a : ThreadAct} {o : ThreadEffect Place}
    (h : ThreadStep s p a o) : o.signals = [] ∧ o.spawned = [] := by
  cases h with
  | destroys => exact destroyBlock_quiet _
  | joins =>
    unfold joinBlock
    split
    · exact ⟨rfl, rfl⟩
    · exact ⟨rfl, rfl⟩
  | enters =>
    unfold enterBlock
    split
    · exact ⟨rfl, rfl⟩
    · exact ⟨rfl, rfl⟩
  | finishes =>
    unfold finishBlock
    split
    · exact ⟨rfl, rfl⟩
    · exact ⟨rfl, rfl⟩
  | destroysOwn =>
    unfold destroyOwnBlock
    split
    · exact ⟨rfl, rfl⟩
    · exact ⟨rfl, rfl⟩
  | _ => exact ⟨rfl, rfl⟩

/-- A step moves one thread. -/
inductive ThreadChange (c : Config SimpleThread Place ThreadEvent) :
    Move ThreadAct → Config SimpleThread Place ThreadEvent → Prop
  | moves {k a cs p o} (here : c.threads[k]? = some p) (step : ThreadStep c.shared p a o) :
      ThreadChange c (.run k a cs)
        ⟨o.shared, c.threads.set k o.self, c.log ++ o.events.map (Prod.mk k)⟩

theorem threadChange_of_step {c c' : Config SimpleThread Place ThreadEvent}
    {mv : Move ThreadAct} (h : simpleThread.Step c mv c') : ThreadChange c mv c' := by
  cases h with
  | spurious here waits => exact absurd rfl waits
  | @run k a cs p o ts here fires delivered =>
    have step := threadStep_of_block fires
    obtain ⟨silent, childless⟩ := step.quiet
    rw [silent] at delivered
    obtain rfl := Option.some.inj delivered
    rw [childless, List.append_nil]
    exact .moves here step

/-! ## Handles and calls in progress -/

def Place.handles : Place → Nat
  | .client handles => handles
  | .joining handles => handles + 1
  | .entering | .running | .returning => 1
  | _ => 0

def Place.inJoin : Place → Nat
  | .joining _ => 1
  | _ => 0

def Place.inDestructor : Place → Nat
  | .destroying => 1
  | _ => 0

/-- One for the thread of the object until it ends. -/
def Place.alive : Place → Nat
  | .entering | .running | .returning | .leaving => 1
  | _ => 0

/-- The successful calls of `pthread_join`. -/
def successes (log : List (Nat × ThreadEvent)) : Nat :=
  log.countP fun e => e.2 == .returned true

/-- No call of `pthread_join` comes after a successful one. -/
def CalledBefore (log : List (Nat × ThreadEvent)) : Prop :=
  log.Pairwise fun e later => ¬ (e.2 = .returned true ∧ later.2 = .called)

/-- When the object is gone, its pthread has been joined once, and it has not been joined
again after that. -/
def Reclaimed (c : Config SimpleThread Place ThreadEvent) : Prop :=
  (c.shared.destroyed = true → successes c.log = 1) ∧ CalledBefore c.log

/-- `ThreadMain` does not drop the last handle. -/
def OutlivesMain (c : Config SimpleThread Place ThreadEvent) : Move ThreadAct → Prop
  | .run _ .dropOwn _ => 1 < c.shared.useCount
  | _ => True

/-- The handles are counted, one call of `pthread_join` is in progress at most, and
`detached_` says whether one has succeeded. -/
structure ThreadAccount (c : Config SimpleThread Place ThreadEvent) : Prop where
  started : c.shared.state ≠ .uninitialized
  handles : total Place.handles c.threads = c.shared.useCount
  alive : total Place.alive c.threads = (!c.shared.exited).toNat
  joining : total Place.inJoin c.threads = c.shared.joining.toNat
  destroying : total Place.inDestructor c.threads = 0 ∨
    total Place.inDestructor c.threads = 1 ∧ c.shared.useCount = 0
  pending : c.shared.detached = true → c.shared.exited = true ∧
    total Place.inJoin c.threads = 0 ∧ total Place.inDestructor c.threads = 0
  successes : successes c.log = c.shared.detached.toNat
  before : CalledBefore c.log
  destroyed : c.shared.destroyed = true → c.shared.detached = true

theorem ThreadAccount.reclaimed {c : Config SimpleThread Place ThreadEvent}
    (h : ThreadAccount c) : Reclaimed c := by
  refine ⟨?_, h.before⟩
  intro gone
  rw [h.successes, h.destroyed gone]
  rfl

/-! ## One step -/

theorem successes_append (log : List (Nat × ThreadEvent)) (k : Nat) (es : List ThreadEvent) :
    successes (log ++ es.map (Prod.mk k)) = successes log + es.count (.returned true) := by
  unfold successes
  rw [List.countP_append, List.countP_map]
  rfl

theorem calledBefore_returned {log : List (Nat × ThreadEvent)} (h : CalledBefore log) (k : Nat)
    (success : Bool) : CalledBefore (log ++ [(k, .returned success)]) := by
  refine List.pairwise_append.mpr ⟨h, List.pairwise_singleton _ _, ?_⟩
  rintro e _ later mem ⟨-, call⟩
  rw [List.mem_singleton.mp mem] at call
  cases call

theorem calledBefore_called {log : List (Nat × ThreadEvent)} (h : CalledBefore log) (k : Nat)
    (none : successes log = 0) : CalledBefore (log ++ [(k, .called)]) := by
  refine List.pairwise_append.mpr ⟨h, List.pairwise_singleton _ _, ?_⟩
  rintro e mem later - ⟨success, -⟩
  have no := List.countP_eq_zero.mp none e mem
  exact no (beq_iff_eq.mpr success)

theorem inJoin_le_handles (ts : List Place) :
    total Place.inJoin ts ≤ total Place.handles ts := by
  apply total_mono
  intro p _
  cases p with
  | joining n => exact Nat.le_add_left 1 n
  | _ => exact Nat.zero_le _

theorem total_moved {ts : List Place} {k : Nat} {p : Place} (here : ts[k]? = some p) (q : Place) :
    total Place.handles (ts.set k q) + p.handles = total Place.handles ts + q.handles ∧
      total Place.alive (ts.set k q) + p.alive = total Place.alive ts + q.alive ∧
      total Place.inJoin (ts.set k q) + p.inJoin = total Place.inJoin ts + q.inJoin ∧
      total Place.inDestructor (ts.set k q) + p.inDestructor =
        total Place.inDestructor ts + q.inDestructor :=
  ⟨total_set _ here q, total_set _ here q, total_set _ here q, total_set _ here q⟩

section Step

variable {c c' : Config SimpleThread Place ThreadEvent} {mv : Move ThreadAct}

/-- The destructor runs when there is no handle. -/
theorem ThreadAccount.noDestructor (h : ThreadAccount c) (some : 0 < c.shared.useCount) :
    total Place.inDestructor c.threads = 0 := by
  rcases h.destroying with none | ⟨-, zero⟩
  · exact none
  · exact absurd zero (Nat.ne_of_gt some)

theorem ThreadAccount.held (h : ThreadAccount c) {k : Nat} {p : Place}
    (here : c.threads[k]? = some p) : p.handles ≤ c.shared.useCount := by
  rw [← h.handles]
  exact le_total_of_getElem? Place.handles here

theorem ThreadAccount.lives (h : ThreadAccount c) {k : Nat} {p : Place}
    (here : c.threads[k]? = some p) (lives : p.alive = 1) : c.shared.exited = false := by
  have some := le_total_of_getElem? Place.alive here
  rw [lives, h.alive] at some
  cases exited : c.shared.exited with
  | false => rfl
  | true =>
    rw [exited] at some
    exact absurd some (Nat.not_succ_le_zero 0)

/-- While the thread of the object lives, it has not been joined. -/
theorem ThreadAccount.notJoined (h : ThreadAccount c) {k : Nat} {p : Place}
    (here : c.threads[k]? = some p) (lives : p.alive = 1) : c.shared.detached = false := by
  cases joined : c.shared.detached with
  | false => rfl
  | true =>
    have exited := (h.pending joined).1
    rw [h.lives here lives] at exited
    cases exited

theorem ThreadAccount.joinable (h : ThreadAccount c) (joins : c.shared.detached = false) :
    c.shared.joinable = true := by
  simp [SimpleThread.joinable, joins, h.started]

/-- A step without `pthread_join`. -/
theorem ThreadAccount.quietly (h : ThreadAccount c) {k : Nat} {p q : Place} {s : SimpleThread}
    (here : c.threads[k]? = some p) (started : s.state ≠ .uninitialized)
    (handles : s.useCount + p.handles = c.shared.useCount + q.handles)
    (alive : (!s.exited).toNat + p.alive = (!c.shared.exited).toNat + q.alive)
    (lasts : c.shared.exited = true → s.exited = true)
    (calls : q.inJoin = p.inJoin ∧ q.inDestructor = p.inDestructor)
    (holds : 0 < c.shared.useCount ∨ s.useCount = c.shared.useCount)
    (same : s.detached = c.shared.detached ∧ s.joining = c.shared.joining)
    (gone : s.destroyed = true → s.detached = true) :
    ThreadAccount ⟨s, c.threads.set k q, c.log ++ ([] : List ThreadEvent).map (Prod.mk k)⟩ := by
  rw [List.map_nil, List.append_nil]
  obtain ⟨held, living, joining, destroying⟩ := total_moved here q
  rw [calls.1, Nat.add_right_cancel_iff] at joining
  rw [calls.2, Nat.add_right_cancel_iff] at destroying
  refine ⟨started, ?_, ?_, ?_, ?_, ?_, ?_, h.before, gone⟩
  · have counted := h.handles
    dsimp only
    omega
  · have counted := h.alive
    dsimp only
    omega
  · dsimp only
    rw [joining, same.2]
    exact h.joining
  · dsimp only
    rw [destroying]
    rcases holds with holds | unused
    · exact .inl (h.noDestructor holds)
    · rw [unused]
      exact h.destroying
  · dsimp only
    rw [joining, destroying, same.1]
    intro joined
    obtain ⟨exited, nobody⟩ := h.pending joined
    exact ⟨lasts exited, nobody⟩
  · dsimp only
    rw [same.1]
    exact h.successes

theorem threadAccount_joins (h : ThreadAccount c) {k n : Nat}
    (here : c.threads[k]? = some (.client (n + 1))) (alone : c.shared.joining = false)
    (joins : c.shared.detached = false) :
    ThreadAccount ⟨{ c.shared with joining := true }, c.threads.set k (.joining n),
      c.log ++ [(k, .called)]⟩ := by
  obtain ⟨handles, living, joining, destroying⟩ := total_moved here (.joining n)
  have nobody := h.noDestructor (Nat.zero_lt_of_lt (h.held here))
  have before := h.joining
  have none := h.successes
  rw [alone, Bool.toNat_false] at before
  rw [joins, Bool.toNat_false] at none
  simp only [Place.handles, Place.alive, Place.inJoin, Place.inDestructor, Nat.add_zero,
    Nat.add_right_cancel_iff] at handles living joining destroying
  refine ⟨h.started, handles.trans h.handles, living.trans h.alive, ?_, ?_, ?_, ?_,
    calledBefore_called h.before k none, h.destroyed⟩
  · dsimp only
    rw [joining, before]
    rfl
  · exact .inl (destroying.trans nobody)
  · intro joined
    exact absurd joined (Bool.eq_false_iff.mp joins)
  · have appended := successes_append c.log k [.called]
    dsimp only
    rw [joins]
    exact appended.trans none

theorem threadAccount_joined (h : ThreadAccount c) {k n : Nat}
    (here : c.threads[k]? = some (.joining n)) (exited : c.shared.exited = true) :
    ThreadAccount ⟨{ c.shared with detached := true, joining := false },
      c.threads.set k (.client (n + 1)), c.log ++ [(k, .returned true)]⟩ := by
  obtain ⟨handles, living, joining, destroying⟩ := total_moved here (.client (n + 1))
  have nobody := h.noDestructor (Nat.zero_lt_of_lt (h.held here))
  have own := le_total_of_getElem? Place.inJoin here
  have one := Bool.toNat_le c.shared.joining
  have before := h.joining
  simp only [Place.handles, Place.alive, Place.inJoin, Place.inDestructor, Nat.add_zero,
    Nat.add_right_cancel_iff] at handles living joining destroying own
  have joins : c.shared.detached = false := by
    apply Bool.eq_false_iff.mpr
    intro joined
    have none := (h.pending joined).2.1
    omega
  have none := h.successes
  rw [joins, Bool.toNat_false] at none
  refine ⟨h.started, handles.trans h.handles, living.trans h.alive, ?_, ?_, ?_, ?_,
    calledBefore_returned h.before k true, fun _ => rfl⟩
  · dsimp only [Bool.toNat_false]
    omega
  · exact .inl (destroying.trans nobody)
  · intro _
    refine ⟨exited, ?_, destroying.trans nobody⟩
    dsimp only
    omega
  · have appended := successes_append c.log k [.returned true]
    rw [none] at appended
    exact appended

theorem threadAccount_destroys (h : ThreadAccount c) {k n : Nat}
    (here : c.threads[k]? = some (.client (n + 1))) (last : c.shared.useCount - 1 = 0)
    (joins : c.shared.detached = false) :
    ThreadAccount ⟨letGo c.shared, c.threads.set k .destroying, c.log ++ [(k, .called)]⟩ := by
  obtain ⟨handles, living, joining, destroying⟩ := total_moved here .destroying
  have nobody := h.noDestructor (Nat.zero_lt_of_lt (h.held here))
  have counted := h.handles
  have none := h.successes
  rw [joins, Bool.toNat_false] at none
  simp only [Place.handles, Place.alive, Place.inJoin, Place.inDestructor, Nat.add_zero]
    at handles living joining destroying
  refine ⟨h.started, ?_, living.trans h.alive, joining.trans h.joining, ?_, ?_, ?_,
    calledBefore_called h.before k none, ?_⟩
  · dsimp only [letGo]
    omega
  · refine .inr ⟨?_, last⟩
    dsimp only
    omega
  · intro joined
    exact absurd joined (Bool.eq_false_iff.mp joins)
  · have appended := successes_append c.log k [.called]
    dsimp only [letGo]
    rw [joins]
    exact appended.trans none
  · exact h.destroyed

theorem threadAccount_destroyed (h : ThreadAccount c) {k : Nat}
    (here : c.threads[k]? = some .destroying) (exited : c.shared.exited = true) :
    ThreadAccount ⟨{ c.shared with detached := true, destroyed := true },
      c.threads.set k (.client 0), c.log ++ [(k, .returned true)]⟩ := by
  obtain ⟨handles, living, joining, destroying⟩ := total_moved here (.client 0)
  have own := le_total_of_getElem? Place.inDestructor here
  have waits := inJoin_le_handles c.threads
  have counted := h.handles
  have before := h.destroying
  simp only [Place.handles, Place.alive, Place.inJoin, Place.inDestructor, Nat.add_zero]
    at handles living joining destroying own
  have joins : c.shared.detached = false := by
    apply Bool.eq_false_iff.mpr
    intro joined
    have none := (h.pending joined).2.2
    omega
  have none := h.successes
  rw [joins, Bool.toNat_false] at none
  refine ⟨h.started, handles.trans h.handles, living.trans h.alive, joining.trans h.joining, ?_,
    ?_, ?_, calledBefore_returned h.before k true, fun _ => rfl⟩
  · left
    dsimp only
    omega
  · intro _
    refine ⟨exited, ?_, ?_⟩
    · dsimp only
      omega
    · dsimp only
      omega
  · have appended := successes_append c.log k [.returned true]
    rw [none] at appended
    exact appended

theorem destroyBlock_cases (s : SimpleThread) (started : s.state ≠ .uninitialized) :
    s.detached = true ∧
        destroyBlock s = { shared := { s with destroyed := true }, self := .client 0 } ∨
      s.detached = false ∧
        destroyBlock s = { shared := s, self := .destroying, events := [.called] } := by
  unfold destroyBlock SimpleThread.joinable
  cases joined : s.detached with
  | true => exact .inl ⟨rfl, rfl⟩
  | false => exact .inr ⟨rfl, by simp [started]⟩

theorem joinBlock_cases (s : SimpleThread) (started : s.state ≠ .uninitialized) (n : Nat) :
    s.detached = true ∧ joinBlock s n = { shared := s, self := .client (n + 1) } ∨
      s.detached = false ∧ joinBlock s n =
        { shared := { s with joining := true }, self := .joining n, events := [.called] } := by
  unfold joinBlock SimpleThread.joinable
  cases joined : s.detached with
  | true => exact .inl ⟨rfl, rfl⟩
  | false => exact .inr ⟨rfl, by simp [started]⟩

/-- A step that takes a handle or gives one back, and is not the last to do so. -/
theorem ThreadAccount.handled (h : ThreadAccount c) {k n : Nat} {p q : Place}
    (here : c.threads[k]? = some p) (some : 0 < c.shared.useCount)
    (handles : n + p.handles = c.shared.useCount + q.handles) (alive : q.alive = p.alive)
    (calls : q.inJoin = p.inJoin ∧ q.inDestructor = p.inDestructor) :
    ThreadAccount ⟨{ c.shared with useCount := n }, c.threads.set k q,
      c.log ++ ([] : List ThreadEvent).map (Prod.mk k)⟩ := by
  refine h.quietly here h.started handles ?_ id calls (.inl some) ⟨rfl, rfl⟩ h.destroyed
  rw [alive]

/-- `ThreadMain` moves `state_` on. -/
theorem threadAccount_state (h : ThreadAccount c) {k : Nat} {p q : Place} {state : StateEnum}
    (here : c.threads[k]? = some p)
    (moves : p.handles = 1 ∧ p.alive = 1 ∧ q.handles = 1 ∧ q.alive = 1)
    (calls : q.inJoin = p.inJoin ∧ q.inDestructor = p.inDestructor)
    (started : state ≠ .uninitialized) :
    ThreadAccount ⟨{ c.shared with state := state }, c.threads.set k q,
      c.log ++ ([] : List ThreadEvent).map (Prod.mk k)⟩ := by
  obtain ⟨held, lives, holds, living⟩ := moves
  refine h.quietly here started ?_ ?_ id calls (.inr rfl) ⟨rfl, rfl⟩ h.destroyed
  · rw [held, holds]
  · rw [lives, living]

/-- As long as `ThreadMain` does not drop the last handle, the account stays in order. -/
theorem threadAccount_step (h : ThreadAccount c) (ok : OutlivesMain c mv)
    (change : ThreadChange c mv c') : ThreadAccount c' := by
  cases change with
  | @moves k a cs p o here step =>
    have held := h.held here
    cases step with
    | @acquires n alive =>
      refine h.handled here alive ?_ rfl ⟨rfl, rfl⟩
      simp only [Place.handles]
      omega
    | @drops n others =>
      have some : 0 < c.shared.useCount := Nat.zero_lt_of_lt held
      refine h.handled here some ?_ rfl ⟨rfl, rfl⟩
      simp only [Place.handles]
      omega
    | @destroys n last =>
      rcases destroyBlock_cases (letGo c.shared) h.started with ⟨joined, eq⟩ | ⟨joins, eq⟩
      · rw [eq]
        have some : 0 < c.shared.useCount := Nat.zero_lt_of_lt held
        refine h.quietly here h.started ?_ rfl id ⟨rfl, rfl⟩ (.inl some) ⟨rfl, rfl⟩ fun _ => joined
        simp only [Place.handles, letGo] at held ⊢
        omega
      · rw [eq]
        exact threadAccount_destroys h here last joins
    | @joins n alone =>
      rcases joinBlock_cases c.shared h.started n with ⟨joined, eq⟩ | ⟨joins, eq⟩
      · rw [eq]
        exact h.quietly here h.started rfl rfl id ⟨rfl, rfl⟩ (.inr rfl) ⟨rfl, rfl⟩ h.destroyed
      · rw [eq]
        exact threadAccount_joins h here alone joins
    | joined exited => exact threadAccount_joined h here exited
    | destroyed exited => exact threadAccount_destroyed h here exited
    | enters =>
      unfold enterBlock
      split
      · exact threadAccount_state h here ⟨rfl, rfl, rfl, rfl⟩ ⟨rfl, rfl⟩ h.started
      · exact threadAccount_state h here ⟨rfl, rfl, rfl, rfl⟩ ⟨rfl, rfl⟩ StateEnum.noConfusion
    | finishes =>
      unfold finishBlock
      split
      · exact threadAccount_state h here ⟨rfl, rfl, rfl, rfl⟩ ⟨rfl, rfl⟩ StateEnum.noConfusion
      · exact threadAccount_state h here ⟨rfl, rfl, rfl, rfl⟩ ⟨rfl, rfl⟩ h.started
    | dropsOwn others =>
      refine h.handled here held ?_ rfl ⟨rfl, rfl⟩
      simp only [Place.handles]
      omega
    | destroysOwn last =>
      have more : 1 < c.shared.useCount := ok
      omega
    | exits =>
      have lives : c.shared.exited = false := h.lives here rfl
      refine h.quietly here h.started rfl ?_ (fun _ => rfl) ⟨rfl, rfl⟩ (.inr rfl) ⟨rfl, rfl⟩
        h.destroyed
      rw [lives]
      rfl

/-- The thread of the object cannot join itself, and nobody else is left to do it. -/
theorem notReclaimed_of_step (h : ThreadAccount c) (bad : ¬ OutlivesMain c mv)
    (change : ThreadChange c mv c') : ¬ Reclaimed c' := by
  cases change with
  | @moves k a cs p o here step =>
    cases step with
    | dropsOwn others =>
      have few : ¬ 1 < c.shared.useCount := bad
      omega
    | destroysOwn last =>
      have joins : c.shared.detached = false := h.notJoined here rfl
      have block : destroyOwnBlock (letGo c.shared) =
          { shared := { letGo c.shared with detached := false, destroyed := true }
            self := .leaving
            events := [.called, .returned false] } := by
        simp [destroyOwnBlock, letGo, SimpleThread.joinable, joins, h.started]
      have none := h.successes
      rw [joins, Bool.toNat_false] at none
      rintro ⟨once, -⟩
      rw [block] at once
      have appended := successes_append c.log k [.called, .returned false]
      rw [none] at appended
      have one := once rfl
      rw [appended] at one
      cases one
    | _ => exact absurd trivial bad

end Step

theorem threadAccount_startedThread (others : Nat) : ThreadAccount (startedThread others) := by
  have clients (f : Place → Nat) (zero : f (.client 0) = 0) :
      total f (List.replicate others (.client 0)) = 0 :=
    total_eq_zero.mpr fun p mem => by rw [List.eq_of_mem_replicate mem, zero]
  unfold startedThread
  refine ⟨StateEnum.noConfusion, ?_, ?_, ?_, .inl ?_, Bool.noConfusion, rfl, List.Pairwise.nil,
    Bool.noConfusion⟩
  all_goals
    rw [total_cons, total_cons, clients _ rfl]
    rfl

/-- Along every schedule, the pthread is joined exactly once by the time the object is gone,
and not again, exactly if `ThreadMain` never drops the last handle. -/
theorem reclaimed_iff (others : Nat) (mvs : List (Move ThreadAct)) :
    simpleThread.Throughout Reclaimed (startedThread others) mvs ↔
      simpleThread.EachStep OutlivesMain (startedThread others) mvs :=
  Program.throughout_iff (fun h => ThreadAccount.reclaimed h)
    (fun h ok step => threadAccount_step h ok (threadChange_of_step step))
    (fun h bad step => notReclaimed_of_step h bad (threadChange_of_step step))
    (threadAccount_startedThread others) mvs

/-- The client drops its handle first, and the thread ends. -/
def dropThenEnd : List (Move ThreadAct) :=
  [.run 1 .drop [], .run 0 .enter [], .run 0 .finish [], .run 0 .dropOwn []]

theorem reclaimed_dropThenEnd :
    ¬ simpleThread.Throughout Reclaimed (startedThread 0) dropThenEnd := by
  rintro ⟨-, -, -, -, once, -⟩
  cases once rfl

end Threads.Factory
