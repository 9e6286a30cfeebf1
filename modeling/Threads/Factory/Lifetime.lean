import Threads.Concurrency.Progress
import Threads.Factory.SimpleThread

/-!
# The life of a `SimpleThread`

An object from `NewThread` on, detached or not, with `Start` in its steps: `state_` is tested
and written without a lock, `pthread_create` may fail, and the handle that `Start` makes for
`ThreadMain` is then lost. Several clients may call `Start`, and each may create a pthread; `Join`
is called by one client at a time.
-/

namespace Threads.Factory

open Concurrency

/-! ## The code -/

/-- The members of `SimpleThread`, its handles and the pthreads that have been created for it, which
are named in their order. -/
structure Lifetime where
  state : StateEnum := .uninitialized
  detached : Bool
  /-- `pthread_`, `none` being 0. -/
  pthread : Option Nat := none
  /-- The number of `shared_ptr`s to the object. -/
  useCount : Nat := 1
  created : Nat := 0
  ended : List Nat := []
  /-- The `self_ref`s that no `ThreadMain` deletes. -/
  lost : Nat := 0
  /-- A client is in `Join`; its calls do not overlap. -/
  joining : Bool := false
  destroyed : Bool := false
  /-- `pthread_join` has been called on 0. -/
  broken : Bool := false
  deriving DecidableEq, Repr

/-- Where a thread of the object stands in `ThreadMain`. -/
inductive Stage where
  | entering
  /-- `state_` is `STARTING`, and is about to be written. -/
  | tested
  | running
  | returning
  /-- In `pthread_join` on another pthread, called by `~SimpleThread`. -/
  | destroying (pthread : Nat)
  | leaving
  | ended
  deriving DecidableEq, Repr

inductive Standing where
  | client (handles : Nat)
  /-- In `Start`, through one more handle, past the test and with `self_ref` made. -/
  | preparing (handles : Nat)
  /-- `pthread_create` is next. -/
  | creating (handles : Nat)
  /-- In `pthread_join`, called by `Join` through one more handle. -/
  | joining (handles pthread : Nat)
  /-- In `pthread_join`, called by `~SimpleThread`. -/
  | destroying (pthread : Nat)
  | main (pthread : Nat) (stage : Stage)
  deriving DecidableEq, Repr

inductive LifeAct where
  | acquire
  | drop
  | start
  | write
  | create (succeeds : Bool)
  | join
  | joined
  | enter
  | begin
  | finish
  | dropOwn
  | exit
  deriving DecidableEq, Repr

inductive LifeEvent where
  | ran (pthread : Nat)
  /-- `Runnable::Run` is over. -/
  | finished (pthread : Nat)
  | joined (pthread : Nat)
  /-- `pthread_join` fails with `EDEADLK`. -/
  | refused (pthread : Nat)
  deriving DecidableEq, Repr

abbrev LifeEffect := Outcome Lifetime Standing Standing LifeEvent Empty

namespace Lifetime

/-- A join gets as far as `pthread_join`. -/
def joins (s : Lifetime) : Bool := !s.detached && s.state != .uninitialized

def hold (s : Lifetime) : Lifetime := { s with useCount := s.useCount + 1 }

def letGo (s : Lifetime) : Lifetime := { s with useCount := s.useCount - 1 }

/-- `pthread_join` has succeeded. -/
def reclaim (s : Lifetime) : Lifetime := { s with detached := true }

end Lifetime

def startBlock (s : Lifetime) (handles : Nat) : LifeEffect :=
  if s.state ≠ .uninitialized then { shared := s, self := .client (handles + 1) }
  else { shared := s.hold, self := .preparing handles }

def createBlock (s : Lifetime) (handles : Nat) : Bool → LifeEffect
  | true =>
    { shared := { s with pthread := some s.created, created := s.created + 1 }
      self := .client (handles + 1)
      spawned := [.main s.created .entering] }
  | false => { shared := { s with lost := s.lost + 1 }, self := .client (handles + 1) }

def joinStep (s : Lifetime) (handles : Nat) : LifeEffect :=
  if s.joins then
    match s.pthread with
    | none => { shared := { s with broken := true }, self := .client (handles + 1) }
    | some k => { shared := { s with joining := true }, self := .joining handles k }
  else { shared := s, self := .client (handles + 1) }

/-- `~SimpleThread` on a client, up to `pthread_join`. -/
def destroyStep (s : Lifetime) : LifeEffect :=
  if s.joins then
    match s.pthread with
    | none => { shared := { s with broken := true }, self := .client 0 }
    | some k => { shared := s, self := .destroying k }
  else { shared := { s with destroyed := true }, self := .client 0 }

/-- `~SimpleThread` in `ThreadMain` of pthread `k`, which cannot join itself. -/
def destroyInMain (s : Lifetime) (k : Nat) : LifeEffect :=
  if s.joins then
    match s.pthread with
    | none => { shared := { s with broken := true }, self := .main k .leaving }
    | some j =>
      if j = k then
        { shared := { s with destroyed := true }, self := .main k .leaving, events := [.refused k] }
      else { shared := s, self := .main k (.destroying j) }
  else { shared := { s with destroyed := true }, self := .main k .leaving }

/-- `thread` goes out of scope, or a client's handle. -/
def dropStep (s : Lifetime) (left : Standing) (destroys : LifeEffect) : LifeEffect :=
  if s.letGo.useCount = 0 then destroys else { shared := s.letGo, self := left }

def finishStep (s : Lifetime) (k : Nat) : LifeEffect :=
  { shared := { s with
      state := if s.state ≠ .stopping ∧ s.state ≠ .stopped then .stopping else s.state }
    self := .main k .returning
    events := [.finished k] }

def lifeBlock (s : Lifetime) : Standing → LifeAct → Option LifeEffect
  | .client n, .acquire =>
    if 0 < s.useCount then some { shared := s.hold, self := .client (n + 1) } else none
  | .client (n + 1), .drop => some (dropStep s (.client n) (destroyStep s.letGo))
  | .client (n + 1), .start => some (startBlock s n)
  | .preparing n, .write => some { shared := { s with state := .starting }, self := .creating n }
  | .creating n, .create succeeds => some (createBlock s n succeeds)
  | .client (n + 1), .join => if s.joining then none else some (joinStep s n)
  | .joining n k, .joined =>
    if s.ended.contains k then
      some
        { shared := { s.reclaim with joining := false }
          self := .client (n + 1)
          events := [.joined k] }
    else none
  | .destroying k, .joined =>
    if s.ended.contains k then
      some
        { shared := { s.reclaim with destroyed := true }
          self := .client 0
          events := [.joined k] }
    else none
  | .main k .entering, .enter =>
    some { shared := s, self := .main k (if s.state ≠ .starting then .returning else .tested) }
  | .main k .tested, .begin =>
    some { shared := { s with state := .started }, self := .main k .running, events := [.ran k] }
  | .main k .running, .finish => some (finishStep s k)
  | .main k .returning, .dropOwn => some (dropStep s (.main k .leaving) (destroyInMain s.letGo k))
  | .main k (.destroying j), .joined =>
    if s.ended.contains j then
      some
        { shared := { s.reclaim with destroyed := true }
          self := .main k .leaving
          events := [.joined j] }
    else none
  | .main k .leaving, .exit =>
    some { shared := { s with ended := k :: s.ended }, self := .main k .ended }
  | _, _ => none

/-- The clients of an object and its own threads. -/
def lifetime : Program Lifetime Standing LifeAct LifeEvent Empty where
  waitsOn _ := none
  wake := id
  wake_awake _ := rfl
  block s p a := if s.broken then none else lifeBlock s p a

/-- A client has made the object with `NewThread`, and holds the one handle. -/
def newObject (detached : Bool) (others : Nat) : Config Lifetime Standing LifeEvent where
  shared := { detached := detached }
  threads := .client 1 :: List.replicate others (.client 0)

/-! ## What a step can do -/

inductive LifeStep (s : Lifetime) : Standing → LifeAct → LifeEffect → Prop
  | acquires {n} (alive : 0 < s.useCount) :
      LifeStep s (.client n) .acquire { shared := s.hold, self := .client (n + 1) }
  | drops {n} (others : s.letGo.useCount ≠ 0) :
      LifeStep s (.client (n + 1)) .drop { shared := s.letGo, self := .client n }
  | destroys {n} (last : s.letGo.useCount = 0) (skips : s.joins = false) :
      LifeStep s (.client (n + 1)) .drop
        { shared := { s.letGo with destroyed := true }, self := .client 0 }
  | destroysZero {n} (last : s.letGo.useCount = 0) (joins : s.joins = true)
      (zero : s.pthread = none) :
      LifeStep s (.client (n + 1)) .drop
        { shared := { s.letGo with broken := true }, self := .client 0 }
  | waits {n k} (last : s.letGo.useCount = 0) (joins : s.joins = true) (made : s.pthread = some k) :
      LifeStep s (.client (n + 1)) .drop { shared := s.letGo, self := .destroying k }
  | again {n} (begun : s.state ≠ .uninitialized) :
      LifeStep s (.client (n + 1)) .start { shared := s, self := .client (n + 1) }
  | starts {n} (first : s.state = .uninitialized) :
      LifeStep s (.client (n + 1)) .start { shared := s.hold, self := .preparing n }
  | writes {n} :
      LifeStep s (.preparing n) .write
        { shared := { s with state := .starting }, self := .creating n }
  | creates {n} :
      LifeStep s (.creating n) (.create true)
        { shared := { s with pthread := some s.created, created := s.created + 1 }
          self := .client (n + 1)
          spawned := [.main s.created .entering] }
  | loses {n} :
      LifeStep s (.creating n) (.create false)
        { shared := { s with lost := s.lost + 1 }, self := .client (n + 1) }
  | joinsNot {n} (skips : s.joins = false) :
      LifeStep s (.client (n + 1)) .join { shared := s, self := .client (n + 1) }
  | joinsZero {n} (joins : s.joins = true) (zero : s.pthread = none) :
      LifeStep s (.client (n + 1)) .join
        { shared := { s with broken := true }, self := .client (n + 1) }
  | joins {n k} (alone : s.joining = false) (joins : s.joins = true) (made : s.pthread = some k) :
      LifeStep s (.client (n + 1)) .join
        { shared := { s with joining := true }, self := .joining n k }
  | joined {n k} (gone : k ∈ s.ended) :
      LifeStep s (.joining n k) .joined
        { shared := { s.reclaim with joining := false }
          self := .client (n + 1)
          events := [.joined k] }
  | destroyed {k} (gone : k ∈ s.ended) :
      LifeStep s (.destroying k) .joined
        { shared := { s.reclaim with destroyed := true }, self := .client 0, events := [.joined k] }
  | leaves {k} (late : s.state ≠ .starting) :
      LifeStep s (.main k .entering) .enter { shared := s, self := .main k .returning }
  | enters {k} (inTime : s.state = .starting) :
      LifeStep s (.main k .entering) .enter { shared := s, self := .main k .tested }
  | begins {k} :
      LifeStep s (.main k .tested) .begin
        { shared := { s with state := .started }, self := .main k .running, events := [.ran k] }
  | finishes {k} : LifeStep s (.main k .running) .finish (finishStep s k)
  | dropsOwn {k} (others : s.letGo.useCount ≠ 0) :
      LifeStep s (.main k .returning) .dropOwn { shared := s.letGo, self := .main k .leaving }
  | destroysOwn {k} (last : s.letGo.useCount = 0) (skips : s.joins = false) :
      LifeStep s (.main k .returning) .dropOwn
        { shared := { s.letGo with destroyed := true }, self := .main k .leaving }
  | destroysOwnZero {k} (last : s.letGo.useCount = 0) (joins : s.joins = true)
      (zero : s.pthread = none) :
      LifeStep s (.main k .returning) .dropOwn
        { shared := { s.letGo with broken := true }, self := .main k .leaving }
  | refused {k} (last : s.letGo.useCount = 0) (joins : s.joins = true) (own : s.pthread = some k) :
      LifeStep s (.main k .returning) .dropOwn
        { shared := { s.letGo with destroyed := true }
          self := .main k .leaving
          events := [.refused k] }
  | waitsOther {k j} (last : s.letGo.useCount = 0) (joins : s.joins = true) (other : j ≠ k)
      (made : s.pthread = some j) :
      LifeStep s (.main k .returning) .dropOwn
        { shared := s.letGo, self := .main k (.destroying j) }
  | destroyedOther {k j} (gone : j ∈ s.ended) :
      LifeStep s (.main k (.destroying j)) .joined
        { shared := { s.reclaim with destroyed := true }
          self := .main k .leaving
          events := [.joined j] }
  | exits {k} :
      LifeStep s (.main k .leaving) .exit
        { shared := { s with ended := k :: s.ended }, self := .main k .ended }

theorem lifeStep_of_drop {s : Lifetime} (n : Nat) :
    LifeStep s (.client (n + 1)) .drop (dropStep s (.client n) (destroyStep s.letGo)) := by
  unfold dropStep destroyStep
  split
  · split
    · split
      · exact .destroysZero ‹_› ‹_› ‹_›
      · exact .waits ‹_› ‹_› ‹_›
    · exact .destroys ‹_› (Bool.eq_false_iff.mpr ‹_›)
  · exact .drops ‹_›

theorem lifeStep_of_dropOwn {s : Lifetime} (k : Nat) :
    LifeStep s (.main k .returning) .dropOwn
      (dropStep s (.main k .leaving) (destroyInMain s.letGo k)) := by
  unfold dropStep destroyInMain
  split
  · split
    · split
      · exact .destroysOwnZero ‹_› ‹_› ‹_›
      · split
        · rename_i own
          subst own
          exact .refused ‹_› ‹_› ‹_›
        · exact .waitsOther ‹_› ‹_› ‹_› ‹_›
    · exact .destroysOwn ‹_› (Bool.eq_false_iff.mpr ‹_›)
  · exact .dropsOwn ‹_›

theorem lifeStep_of_block {s : Lifetime} {p : Standing} {a : LifeAct} {o : LifeEffect}
    (h : lifeBlock s p a = some o) : LifeStep s p a o := by
  unfold lifeBlock at h
  split at h
  case h_1 =>
    split at h
    · obtain rfl := Option.some.inj h
      exact .acquires ‹_›
    · cases h
  case h_2 n =>
    obtain rfl := Option.some.inj h
    exact lifeStep_of_drop n
  case h_3 =>
    obtain rfl := Option.some.inj h
    unfold startBlock
    split
    · exact .again ‹_›
    · exact .starts (not_not.mp ‹_›)
  case h_4 =>
    obtain rfl := Option.some.inj h
    exact .writes
  case h_5 succeeds =>
    obtain rfl := Option.some.inj h
    cases succeeds
    · exact .loses
    · exact .creates
  case h_6 =>
    split at h
    · cases h
    · obtain rfl := Option.some.inj h
      unfold joinStep
      split
      · split
        · exact .joinsZero ‹_› ‹_›
        · exact .joins (Bool.eq_false_iff.mpr ‹_›) ‹_› ‹_›
      · exact .joinsNot (Bool.eq_false_iff.mpr ‹_›)
  case h_7 =>
    split at h
    · obtain rfl := Option.some.inj h
      exact .joined (List.contains_iff_mem.mp ‹_›)
    · cases h
  case h_8 =>
    split at h
    · obtain rfl := Option.some.inj h
      exact .destroyed (List.contains_iff_mem.mp ‹_›)
    · cases h
  case h_9 =>
    obtain rfl := Option.some.inj h
    by_cases inTime : s.state = .starting
    · rw [if_neg (not_not.mpr inTime)]
      exact .enters inTime
    · rw [if_pos inTime]
      exact .leaves inTime
  case h_10 =>
    obtain rfl := Option.some.inj h
    exact .begins
  case h_11 =>
    obtain rfl := Option.some.inj h
    exact .finishes
  case h_12 k =>
    obtain rfl := Option.some.inj h
    exact lifeStep_of_dropOwn k
  case h_13 =>
    split at h
    · obtain rfl := Option.some.inj h
      exact .destroyedOther (List.contains_iff_mem.mp ‹_›)
    · cases h
  case h_14 =>
    obtain rfl := Option.some.inj h
    exact .exits
  case h_15 => cases h

/-- No block of the object signals. -/
theorem LifeStep.silent {s : Lifetime} {p : Standing} {a : LifeAct} {o : LifeEffect}
    (_ : LifeStep s p a o) : o.signals = [] := by
  match signals : o.signals with
  | [] => rfl
  | .notify m :: _ => exact m.elim
  | .notifyAll m :: _ => exact m.elim

/-- A step moves one thread and may create another. -/
inductive LifeChange (c : Config Lifetime Standing LifeEvent) :
    Move LifeAct → Config Lifetime Standing LifeEvent → Prop
  | moves {i a cs p o} (here : c.threads[i]? = some p) (alive : c.shared.broken = false)
      (step : LifeStep c.shared p a o) :
      LifeChange c (.run i a cs)
        ⟨o.shared, c.threads.set i o.self ++ o.spawned, c.log ++ o.events.map (Prod.mk i)⟩

theorem lifeChange_of_step {c c' : Config Lifetime Standing LifeEvent} {mv : Move LifeAct}
    (h : lifetime.Step c mv c') : LifeChange c mv c' := by
  cases h with
  | spurious here waits => exact absurd rfl waits
  | @run i a cs p o ts here fires delivered =>
    simp only [lifetime] at fires
    split at fires
    · cases fires
    · have step := lifeStep_of_block fires
      rw [step.silent] at delivered
      obtain rfl := Option.some.inj delivered
      exact .moves here (Bool.eq_false_iff.mpr ‹_›) step

/-! ## Handles -/

/-- The handles that a thread has, those of a pthread that it is about to create among them. -/
def Standing.handles : Standing → Nat
  | .client n => n
  | .preparing n | .creating n => n + 2
  | .joining n _ => n + 1
  | .main _ .entering | .main _ .tested | .main _ .running | .main _ .returning => 1
  | _ => 0

/-- One for a thread inside `~SimpleThread`. -/
def Standing.inDestructor : Standing → Nat
  | .destroying _ | .main _ (.destroying _) => 1
  | _ => 0

def Standing.isCreating : Standing → Nat
  | .creating _ => 1
  | _ => 0

/-- One for pthread `k` until it has ended. -/
def Standing.isAlive (k : Nat) : Standing → Nat
  | .main _ .ended => 0
  | .main j _ => if j = k then 1 else 0
  | _ => 0

/-- The pthread that has been created last. -/
def Lifetime.newest (s : Lifetime) : Option Nat :=
  match s.created with
  | 0 => none
  | k + 1 => some k

/-- Handles are counted, the object is destroyed once, when there is none, and each pthread that was
created is alive or has ended. -/
structure LifeAccount (c : Config Lifetime Standing LifeEvent) : Prop where
  handles : total Standing.handles c.threads + c.shared.lost = c.shared.useCount
  destroyed : total Standing.inDestructor c.threads + c.shared.destroyed.toNat =
    if c.shared.useCount = 0 then 1 else 0
  begun : c.shared.state ≠ .uninitialized →
    0 < c.shared.created + c.shared.lost + total Standing.isCreating c.threads
  names : ∀ k, total (Standing.isAlive k) c.threads + c.shared.ended.count k =
    if k < c.shared.created then 1 else 0
  newest : c.shared.pthread = c.shared.newest

theorem LifeStep.counts {s : Lifetime} {p : Standing} {a : LifeAct} {o : LifeEffect}
    (h : LifeStep s p a o) (held : p.handles ≤ s.useCount) :
    o.self.handles + total Standing.handles o.spawned + o.shared.lost + s.useCount =
      p.handles + s.lost + o.shared.useCount := by
  cases h <;> simp [Standing.handles, Lifetime.hold, Lifetime.letGo, Lifetime.reclaim, finishStep]
    at * <;> omega

/-- The object is destroyed by the thread that gives back the last handle. -/
theorem LifeStep.destruction {s : Lifetime} {p : Standing} {a : LifeAct} {o : LifeEffect}
    (h : LifeStep s p a o) (held : p.handles ≤ s.useCount)
    (made : 0 < p.handles → s.joins = true → s.letGo.useCount = 0 → s.pthread ≠ none)
    (once : p.inDestructor + s.destroyed.toNat ≤ if s.useCount = 0 then 1 else 0) :
    o.self.inDestructor + total Standing.inDestructor o.spawned + o.shared.destroyed.toNat +
        (if s.useCount = 0 then 1 else 0) =
      p.inDestructor + s.destroyed.toNat + if o.shared.useCount = 0 then 1 else 0 := by
  cases h with
  | destroysZero last joins zero | destroysOwnZero last joins zero =>
    exact absurd zero (made (Nat.succ_pos _) joins last)
  | _ =>
    simp [Standing.inDestructor, Standing.handles, Lifetime.hold, Lifetime.letGo,
      Lifetime.reclaim, finishStep] at *
    try grind

/-- Once `state_` is written, a pthread is created or its handle is lost. -/
theorem LifeStep.begun {s : Lifetime} {p : Standing} {a : LifeAct} {o : LifeEffect}
    (h : LifeStep s p a o) :
    (o.shared.state ≠ .uninitialized →
      s.state ≠ .uninitialized ∨ o.self.isCreating = 1 ∨ ∃ k, p.isAlive k = 1) ∧
    s.created + s.lost + p.isCreating ≤ o.shared.created + o.shared.lost + o.self.isCreating := by
  cases h <;> simp +arith [Standing.isCreating, Standing.isAlive, Lifetime.hold, Lifetime.letGo,
    Lifetime.reclaim, finishStep]

theorem LifeStep.names {s : Lifetime} {p : Standing} {a : LifeAct} {o : LifeEffect}
    (h : LifeStep s p a o) (k : Nat) :
    o.self.isAlive k + total (Standing.isAlive k) o.spawned + o.shared.ended.count k +
        (if k < s.created then 1 else 0) =
      p.isAlive k + s.ended.count k + if k < o.shared.created then 1 else 0 := by
  cases h <;> simp [Standing.isAlive, Lifetime.hold, Lifetime.letGo, Lifetime.reclaim, finishStep,
    List.count_cons] <;> grind

theorem LifeStep.newest {s : Lifetime} {p : Standing} {a : LifeAct} {o : LifeEffect}
    (h : LifeStep s p a o) (last : s.pthread = s.newest) : o.shared.pthread = o.shared.newest := by
  cases h <;> first | exact last | rfl

section Step

variable {c c' : Config Lifetime Standing LifeEvent} {mv : Move LifeAct}

theorem total_moves (f : Standing → Nat) {ts : List Standing} {i : Nat} {p : Standing}
    (here : ts[i]? = some p) (self : Standing) (spawned : List Standing) :
    total f (ts.set i self ++ spawned) + f p = total f ts + f self + total f spawned := by
  have moved := total_set f here self
  rw [total_append]
  omega

theorem LifeAccount.held (h : LifeAccount c) {i : Nat} {p : Standing}
    (here : c.threads[i]? = some p) : p.handles ≤ c.shared.useCount := by
  have present := le_total_of_getElem? Standing.handles here
  have counted := h.handles
  omega

/-- A pthread has been created when the last handle goes, or there would be one in `Start`, or
lost. -/
theorem LifeAccount.made (h : LifeAccount c) {i : Nat} {p : Standing}
    (here : c.threads[i]? = some p)
    (holds : 0 < p.handles) (joins : c.shared.joins = true) (last : c.shared.letGo.useCount = 0) :
    c.shared.pthread ≠ none := by
  have begun := h.begun (by simp [Lifetime.joins] at joins; exact joins.2)
  have counted := h.handles
  have present := le_total_of_getElem? Standing.handles here
  have one : c.shared.useCount - 1 = 0 := last
  have created : 0 < c.shared.created := by
    by_contra none
    have creating : total Standing.isCreating c.threads = 0 := total_eq_zero.mpr fun q mem => by
      have few := le_total Standing.handles mem
      cases q with
      | creating n =>
        simp only [Standing.handles] at few
        omega
      | _ => rfl
    omega
  rw [h.newest, Lifetime.newest]
  cases made : c.shared.created with
  | zero => exact absurd created (by omega)
  | succ k => exact Option.some_ne_none k

theorem LifeAccount.created_of_alive (h : LifeAccount c) {i k : Nat} {p : Standing}
    (here : c.threads[i]? = some p) (alive : p.isAlive k = 1) : 0 < c.shared.created := by
  have names := h.names k
  have present := le_total_of_getElem? (Standing.isAlive k) here
  split at names <;> omega

theorem lifeAccount_step (h : LifeAccount c) (change : LifeChange c mv c') : LifeAccount c' := by
  cases change with
  | @moves i a cs p o here alive step =>
    have held := h.held here
    have moved (f : Standing → Nat) := total_moves f here o.self o.spawned
    refine ⟨?_, ?_, fun begun => ?_, fun k => ?_, step.newest h.newest⟩
    · have counts := step.counts held
      have handles := moved Standing.handles
      have counted := h.handles
      dsimp only
      omega
    · have inside := le_total_of_getElem? Standing.inDestructor here
      have destruction := step.destruction held (h.made here) (by have once := h.destroyed; omega)
      have handles := moved Standing.inDestructor
      have counted := h.destroyed
      dsimp only
      omega
    · obtain ⟨since, more⟩ := step.begun
      have creating := moved Standing.isCreating
      have present := le_total_of_getElem? Standing.isCreating here
      dsimp only
      rcases since begun with before | first | ⟨k, alive⟩
      · have counted := h.begun before
        omega
      · omega
      · have created := h.created_of_alive here alive
        omega
    · have names := step.names k
      have alive := moved (Standing.isAlive k)
      have counted := h.names k
      dsimp only
      omega

end Step

theorem lifeAccount_newObject (detached : Bool) (others : Nat) :
    LifeAccount (newObject detached others) := by
  have clients (f : Standing → Nat) (zero : f (.client 0) = 0) :
      total f (List.replicate others (.client 0)) = 0 :=
    total_eq_zero.mpr fun p mem => by rw [List.eq_of_mem_replicate mem, zero]
  unfold newObject
  refine ⟨?_, ?_, fun begun => absurd rfl begun, fun k => ?_, rfl⟩
  all_goals
    rw [total_cons, clients _ rfl]
    rfl

/-- Whatever its clients do, exactly one thread runs or has run the destructor when there is no
handle left, and none before; a handle that `Start` has lost keeps the object for ever. -/
theorem destroyed_with_last_handle (detached : Bool) (others : Nat)
    (c : Config Lifetime Standing LifeEvent)
    (reach : lifetime.Reach (newObject detached others) c) :
    total Standing.inDestructor c.threads + c.shared.destroyed.toNat =
      if total Standing.handles c.threads + c.shared.lost = 0 then 1 else 0 := by
  have account : LifeAccount c := reach.invariant (lifeAccount_newObject detached others)
    fun h _ step => lifeAccount_step h (lifeChange_of_step step)
  rw [account.handles]
  exact account.destroyed

/-- The client starts a thread that is detached and drops its handle; `ThreadMain` has the last. -/
def startAndDrop : List (Move LifeAct) :=
  [.run 0 .start [], .run 0 .write [], .run 0 (.create true) [], .run 0 .drop [], .run 1 .enter [],
    .run 1 .begin [], .run 1 .finish [], .run 1 .dropOwn []]

theorem destroyed_with_last_handle_startAndDrop : ∃ c, lifetime.Reach (newObject true 0) c ∧
    c.shared.destroyed = true ∧
    total Standing.inDestructor c.threads + c.shared.destroyed.toNat =
      if total Standing.handles c.threads + c.shared.lost = 0 then 1 else 0 := by
  obtain ⟨c, reach, gone⟩ := lifetime.exists_reach (newObject true 0)
    (fun c => c.shared.destroyed = true) startAndDrop (by decide)
  exact ⟨c, reach, gone, destroyed_with_last_handle true 0 c reach⟩

/-! ## Runs of the runnable -/

def Standing.isPreparing : Standing → Nat
  | .preparing _ => 1
  | _ => 0

/-- One for a thread that has still to run the runnable, or to create the one that does. -/
def Standing.ahead : Standing → Nat
  | .creating _ | .main _ .entering | .main _ .tested => 1
  | _ => 0

def Standing.isRunning : Standing → Nat
  | .main _ .running => 1
  | _ => 0

/-- One for a thread that has run the runnable. -/
def Standing.past : Standing → Nat
  | .main _ .returning | .main _ (.destroying _) | .main _ .leaving | .main _ .ended => 1
  | _ => 0

def Standing.isEnded : Standing → Nat
  | .main _ .ended => 1
  | _ => 0

def LifeEvent.isRan : LifeEvent → Bool
  | .ran _ => true
  | _ => false

def LifeEvent.isFinished : LifeEvent → Bool
  | .finished _ => true
  | _ => false

/-- How often `Runnable::Run` has been called, and how often it is over. -/
def timesRun (c : Config Lifetime Standing LifeEvent) : Nat := c.log.countP fun e => e.2.isRan

def timesFinished (c : Config Lifetime Standing LifeEvent) : Nat :=
  c.log.countP fun e => e.2.isFinished

def Lifetime.begun (s : Lifetime) : Nat := if s.state = .uninitialized then 0 else 1

/-- A client calls `Start` while no other is between its test of `state_` and its write. -/
def StartsInTurn (c : Config Lifetime Standing LifeEvent) : Move LifeAct → Prop
  | .run _ .start _ => total Standing.isPreparing c.threads = 0
  | _ => True

instance (c : Config Lifetime Standing LifeEvent) (mv : Move LifeAct) :
    Decidable (StartsInTurn c mv) := by
  unfold StartsInTurn
  split <;> infer_instance

structure RunAccount (c : Config Lifetime Standing LifeEvent) : Prop where
  turns : total Standing.isPreparing c.threads ≤ 1
  fresh : 0 < total Standing.isPreparing c.threads → c.shared.state = .uninitialized
  once : timesRun c + total Standing.ahead c.threads + c.shared.lost = c.shared.begun
  early : 0 < total Standing.ahead c.threads → c.shared.state = .starting
  finishes : timesFinished c + total Standing.isRunning c.threads = timesRun c
  past : total Standing.past c.threads = timesFinished c
  ended : total Standing.isEnded c.threads = c.shared.ended.length
  joined : ∀ i k, (i, LifeEvent.joined k) ∈ c.log → k ∈ c.shared.ended

/-- What a step that begins in order does to the account. -/
structure RunMove (s : Lifetime) (p : Standing) (o : LifeEffect) : Prop where
  once : o.events.countP LifeEvent.isRan + o.self.ahead + total Standing.ahead o.spawned +
      o.shared.lost + s.begun = p.ahead + s.lost + o.shared.begun
  finishes : o.events.countP LifeEvent.isFinished + o.self.isRunning +
      total Standing.isRunning o.spawned = o.events.countP LifeEvent.isRan + p.isRunning
  past : o.self.past + total Standing.past o.spawned =
    p.past + o.events.countP LifeEvent.isFinished
  ended : o.self.isEnded + total Standing.isEnded o.spawned + s.ended.length =
    p.isEnded + o.shared.ended.length
  grows : s.ended ⊆ o.shared.ended
  joined : ∀ k, LifeEvent.joined k ∈ o.events → k ∈ o.shared.ended

theorem LifeStep.runMove {s : Lifetime} {p : Standing} {a : LifeAct} {o : LifeEffect}
    (h : LifeStep s p a o) (fresh : p.isPreparing = 1 → s.state = .uninitialized)
    (early : p.ahead = 1 → s.state = .starting) (running : p.isRunning = 1 → s.begun = 1) :
    RunMove s p o := by
  constructor
  · cases h <;> simp [Standing.ahead, Standing.isPreparing, Standing.isRunning, Lifetime.begun,
      Lifetime.hold, Lifetime.letGo, Lifetime.reclaim, finishStep, LifeEvent.isRan] at * <;> grind
  · cases h <;> simp [Standing.isRunning, LifeEvent.isRan, LifeEvent.isFinished, finishStep]
  · cases h <;> simp_all [Standing.past, Standing.ahead, LifeEvent.isFinished, finishStep]
  · cases h <;> simp +arith [Standing.isEnded, Lifetime.hold, Lifetime.letGo, Lifetime.reclaim,
      finishStep]
  · cases h <;> simp [Lifetime.hold, Lifetime.letGo, Lifetime.reclaim, finishStep]
  · cases h <;> simp_all [Lifetime.hold, Lifetime.letGo, Lifetime.reclaim, finishStep]

/-- How a step moves `state_`. -/
inductive StateMove (s : Lifetime) (p : Standing) (a : LifeAct) (o : LifeEffect) : Prop
  | stays (same : o.shared.state = s.state)
      (ahead : o.self.ahead + total Standing.ahead o.spawned ≤ p.ahead)
      (prepares : o.self.isPreparing ≤ p.isPreparing ∨
        a = .start ∧ s.state = .uninitialized ∧ p.isPreparing + 1 = o.self.isPreparing)
  | writes (here : p.isPreparing = 1) (gone : o.self.isPreparing = 0)
      (starting : o.shared.state = .starting)
  | begins (here : p.ahead = 1) (gone : o.self.isPreparing = 0)
      (ran : o.events.countP LifeEvent.isRan = 1)
  | finishes (here : p.isRunning = 1) (gone : o.self.isPreparing = 0)

theorem LifeStep.stateMove {s : Lifetime} {p : Standing} {a : LifeAct} {o : LifeEffect}
    (h : LifeStep s p a o) : StateMove s p a o := by
  cases h with
  | writes => exact .writes rfl rfl rfl
  | begins => exact .begins rfl rfl rfl
  | finishes => exact .finishes rfl rfl
  | starts first => exact .stays rfl (Nat.le_refl _) (.inr ⟨rfl, first, rfl⟩)
  | leaves | loses => exact .stays rfl (Nat.zero_le _) (.inl (Nat.le_refl _))
  | _ => exact .stays rfl (Nat.le_refl _) (.inl (Nat.le_refl _))

theorem LifeStep.prepares_none {s : Lifetime} {p : Standing} {a : LifeAct} {o : LifeEffect}
    (h : LifeStep s p a o) : total Standing.isPreparing o.spawned = 0 := by
  cases h <;> rfl

theorem begun_le (s : Lifetime) : s.begun ≤ 1 := by
  unfold Lifetime.begun
  split
  · exact Nat.zero_le 1
  · exact Nat.le_refl 1

theorem begun_of_ne {s : Lifetime} (written : s.state ≠ .uninitialized) : s.begun = 1 :=
  if_neg written

theorem ne_of_begun {s : Lifetime} (begun : s.begun = 1) : s.state ≠ .uninitialized := by
  intro fresh
  rw [Lifetime.begun, if_pos fresh] at begun
  cases begun

section Step

variable {c c' : Config Lifetime Standing LifeEvent} {mv : Move LifeAct}

theorem RunAccount.fresh_of (h : RunAccount c) {i : Nat} {p : Standing}
    (here : c.threads[i]? = some p) (preparing : p.isPreparing = 1) :
    c.shared.state = .uninitialized := by
  apply h.fresh
  have one := le_total_of_getElem? Standing.isPreparing here
  omega

theorem RunAccount.early_of (h : RunAccount c) {i : Nat} {p : Standing}
    (here : c.threads[i]? = some p) (ahead : p.ahead = 1) : c.shared.state = .starting := by
  apply h.early
  have one := le_total_of_getElem? Standing.ahead here
  omega

/-- Whoever runs the runnable has been started. -/
theorem RunAccount.begun_of (h : RunAccount c) {i : Nat} {p : Standing}
    (here : c.threads[i]? = some p) (running : p.isRunning = 1) : 0 < timesRun c := by
  have one := le_total_of_getElem? Standing.isRunning here
  have finishes := h.finishes
  omega

theorem RunAccount.started (h : RunAccount c) (ran : 0 < timesRun c) : c.shared.begun = 1 := by
  have once := h.once
  have few := begun_le c.shared
  omega

/-- Nobody prepares a thread that has been started. -/
theorem RunAccount.prepares_none (h : RunAccount c) (begun : c.shared.begun = 1) :
    total Standing.isPreparing c.threads = 0 := by
  by_contra some
  exact ne_of_begun begun (h.fresh (Nat.pos_of_ne_zero some))

theorem countP_events (log : List (Nat × LifeEvent)) (i : Nat) (es : List LifeEvent)
    (q : LifeEvent → Bool) :
    (log ++ es.map (Prod.mk i)).countP (fun e => q e.2) =
      log.countP (fun e => q e.2) + es.countP q := by
  rw [List.countP_append, List.countP_map]
  rfl

/-- The one run is called, is ahead or is lost. -/
theorem RunAccount.next_once (h : RunAccount c) {i : Nat} {p : Standing} {o : LifeEffect}
    (here : c.threads[i]? = some p) (move : RunMove c.shared p o) :
    c.log.countP (fun e => e.2.isRan) + o.events.countP LifeEvent.isRan +
      total Standing.ahead (c.threads.set i o.self ++ o.spawned) + o.shared.lost =
        o.shared.begun := by
  have ahead := total_moves Standing.ahead here o.self o.spawned
  have before := h.once
  have step := move.once
  unfold timesRun at before
  omega

/-- The part of the account that is about `state_`. -/
theorem RunAccount.next_state (h : RunAccount c) {i : Nat} {a : LifeAct} {cs : List Nat}
    {p : Standing} {o : LifeEffect} (here : c.threads[i]? = some p)
    (ok : StartsInTurn c (.run i a cs)) (step : LifeStep c.shared p a o)
    (move : RunMove c.shared p o) :
    total Standing.isPreparing (c.threads.set i o.self ++ o.spawned) ≤ 1 ∧
      (0 < total Standing.isPreparing (c.threads.set i o.self ++ o.spawned) →
        o.shared.state = .uninitialized) ∧
      (0 < total Standing.ahead (c.threads.set i o.self ++ o.spawned) →
        o.shared.state = .starting) := by
  have preparing := total_moves Standing.isPreparing here o.self o.spawned
  have ahead := total_moves Standing.ahead here o.self o.spawned
  have none := step.prepares_none
  have turns := h.turns
  have once := h.next_once here move
  have few := begun_le o.shared
  cases step.stateMove with
  | stays same further prepares =>
    rw [same]
    refine ⟨?_, fun some => ?_, fun some => h.early (by omega)⟩
    · rcases prepares with fewer | ⟨rfl, -, one⟩
      · omega
      · have alone : total Standing.isPreparing c.threads = 0 := ok
        omega
    · rcases prepares with fewer | ⟨-, fresh, -⟩
      · exact h.fresh (by omega)
      · exact fresh
  | writes present gone starting => exact ⟨by omega, fun some => by omega, fun _ => starting⟩
  | begins present gone ran =>
    have begun := begun_of_ne (s := c.shared) (by rw [h.early_of here present]; exact nofun)
    have nobody := h.prepares_none begun
    exact ⟨by omega, fun some => by omega, fun some => by omega⟩
  | finishes present gone =>
    have called := h.begun_of here present
    have nobody := h.prepares_none (h.started called)
    unfold timesRun at called
    exact ⟨by omega, fun some => by omega, fun some => by omega⟩

theorem runAccount_step (h : RunAccount c) (ok : StartsInTurn c mv) (change : LifeChange c mv c') :
    RunAccount c' := by
  cases change with
  | @moves i a cs p o here alive step =>
    have move := step.runMove (h.fresh_of here) (h.early_of here) fun running =>
      h.started (h.begun_of here running)
    obtain ⟨turns, fresh, early⟩ := h.next_state here ok step move
    have moved (f : Standing → Nat) := total_moves f here o.self o.spawned
    refine ⟨turns, fresh, ?_, early, ?_, ?_, ?_, fun j k mem => ?_⟩
    · unfold timesRun
      rw [countP_events]
      exact h.next_once here move
    · have finishes := h.finishes
      have step := move.finishes
      have running := moved Standing.isRunning
      unfold timesRun timesFinished at finishes ⊢
      rw [countP_events, countP_events]
      dsimp only
      omega
    · have past := h.past
      have step := move.past
      have gone := moved Standing.past
      unfold timesFinished at past ⊢
      rw [countP_events]
      dsimp only
      omega
    · have ended := h.ended
      have step := move.ended
      have gone := moved Standing.isEnded
      dsimp only
      omega
    · rcases List.mem_append.mp mem with old | new
      · exact move.grows (h.joined j k old)
      · obtain ⟨e, fresh, same⟩ := List.mem_map.mp new
        obtain ⟨-, rfl⟩ := Prod.mk.inj same
        exact move.joined k fresh

end Step

theorem runAccount_newObject (detached : Bool) (others : Nat) :
    RunAccount (newObject detached others) := by
  have clients (f : Standing → Nat) (zero : ∀ n, f (.client n) = 0) :
      total f (newObject detached others).threads = 0 :=
    total_eq_zero.mpr fun p mem => by
      rcases List.mem_cons.mp mem with rfl | mem
      · exact zero 1
      · rw [List.eq_of_mem_replicate mem]
        exact zero 0
  refine ⟨?_, fun some => ?_, ?_, fun some => ?_, ?_, ?_, ?_,
    fun i k mem => absurd mem List.not_mem_nil⟩
  · exact (clients _ fun _ => rfl).trans_le (Nat.zero_le 1)
  · rfl
  · rw [clients _ fun _ => rfl]
    rfl
  · rw [clients _ fun _ => rfl] at some
    cases some
  · rw [clients _ fun _ => rfl]
    rfl
  · exact clients _ fun _ => rfl
  · exact clients _ fun _ => rfl

/-- A client starts a thread, joins it and drops its handle. -/
def startAndJoin : List (Move LifeAct) :=
  [.run 0 .start [], .run 0 .write [], .run 0 (.create true) [], .run 1 .enter [], .run 0 .join [],
    .run 1 .begin [], .run 1 .finish [], .run 1 .dropOwn [], .run 1 .exit [],
    .run 0 .joined [], .run 0 .start [], .run 0 .drop []]

/-- Two clients test `state_` before either of them writes it. -/
def startTwice : List (Move LifeAct) :=
  [.run 1 .acquire [], .run 0 .start [], .run 1 .start [], .run 0 .write [],
    .run 0 (.create true) [], .run 2 .enter [], .run 2 .begin [], .run 1 .write [],
    .run 1 (.create true) [], .run 3 .enter [], .run 3 .begin []]

theorem runs_twice : ∃ c, lifetime.Reach (newObject false 1) c ∧ timesRun c = 2 :=
  lifetime.exists_reach _ _ startTwice (by decide)

/-! ## The end of an object -/

/-- No client takes a handle or calls `Start` or `Join`. -/
def WindsDown (_ : Config Lifetime Standing LifeEvent) : Move LifeAct → Prop
  | .run _ .acquire _ | .run _ .start _ | .run _ .join _ => False
  | .run _ _ _ => True
  | .spurious _ => False

def Stage.left : Stage → Nat
  | .entering => 7
  | .tested => 6
  | .running => 5
  | .returning => 4
  | .destroying _ => 3
  | .leaving => 2
  | .ended => 0

/-- The steps that a thread and those it creates have still to take. -/
def Standing.left : Standing → Nat
  | .client n => 2 * n
  | .preparing n => 2 * n + 11
  | .creating n => 2 * n + 10
  | .joining n _ => 2 * n + 3
  | .destroying _ => 1
  | .main _ stage => stage.left

theorem LifeStep.lowers {s : Lifetime} {p : Standing} {a : LifeAct} {o : LifeEffect}
    (h : LifeStep s p a o) {c : Config Lifetime Standing LifeEvent} {i : Nat} {cs : List Nat}
    (ok : WindsDown c (.run i a cs)) : o.self.left + total Standing.left o.spawned < p.left := by
  cases h with
  | acquires | again | starts | joinsNot | joinsZero | joins => exact ok.elim
  | _ => simp +arith [Standing.left, Stage.left, finishStep]

theorem acc_windsDown (c : Config Lifetime Standing LifeEvent) :
    Acc (lifetime.Follows WindsDown) c := by
  refine Program.acc_of_rank Nat.lt_wfRel.wf (fun _ => True)
    (fun c => total Standing.left c.threads) (fun {c mv c'} _ ok next => ⟨trivial, ?_⟩) trivial
  cases lifeChange_of_step next with
  | @moves i a cs p o here alive step =>
    have lower := step.lowers ok
    have moved := total_moves Standing.left here o.self o.spawned
    show total Standing.left (c.threads.set i o.self ++ o.spawned) < total Standing.left c.threads
    omega

/-- The pthread that a thread waits for has been created, and is not its own. -/
def Standing.waitsFor (created : Nat) : Standing → Prop
  | .joining _ k | .destroying k => k < created
  | .main k (.destroying j) => j < created ∧ j ≠ k
  | _ => True

theorem Standing.waitsFor.mono {created created' : Nat} {p : Standing} (h : p.waitsFor created)
    (more : created ≤ created') : p.waitsFor created' := by
  cases p with
  | joining | destroying => exact Nat.lt_of_lt_of_le h more
  | main k stage =>
    cases stage with
    | destroying => exact ⟨Nat.lt_of_lt_of_le h.1 more, h.2⟩
    | _ => trivial
  | _ => trivial

theorem Lifetime.lt_created {s : Lifetime} (newest : s.pthread = s.newest) {k : Nat}
    (made : s.pthread = some k) : k < s.created := by
  rw [newest, Lifetime.newest] at made
  split at made
  · cases made
  · rename_i created
    obtain rfl := Option.some.inj made
    rw [created]
    exact Nat.lt_succ_self _

theorem LifeStep.waitsFor {s : Lifetime} {p : Standing} {a : LifeAct} {o : LifeEffect}
    (h : LifeStep s p a o) (newest : s.pthread = s.newest) :
    s.created ≤ o.shared.created ∧ o.self.waitsFor o.shared.created ∧
      ∀ q ∈ o.spawned, q.waitsFor o.shared.created := by
  have none (q : Standing) (mem : q ∈ ([] : List Standing)) : q.waitsFor s.created :=
    absurd mem List.not_mem_nil
  cases h with
  | waits last joins made | joins alone joins made =>
    exact ⟨Nat.le_refl _, s.lt_created newest made, none⟩
  | waitsOther last joins other made =>
    exact ⟨Nat.le_refl _, ⟨s.lt_created newest made, other⟩, none⟩
  | creates =>
    refine ⟨Nat.le_succ _, trivial, fun q mem => ?_⟩
    rw [List.mem_singleton.mp mem]
    trivial
  | _ => exact ⟨Nat.le_refl _, trivial, none⟩

section AtRest

variable {c c' : Config Lifetime Standing LifeEvent}

structure EndAccount (c : Config Lifetime Standing LifeEvent) : Prop where
  life : LifeAccount c
  waits : ∀ p ∈ c.threads, p.waitsFor c.shared.created

theorem endAccount_step (h : EndAccount c) {mv : Move LifeAct} (change : LifeChange c mv c') :
    EndAccount c' := by
  refine ⟨lifeAccount_step h.life change, ?_⟩
  cases change with
  | @moves i a cs p o here alive step =>
    obtain ⟨more, own, started⟩ := step.waitsFor h.life.newest
    intro q mem
    rcases List.mem_append.mp mem with old | new
    · rcases List.mem_or_eq_of_mem_set old with old | rfl
      · exact (h.waits q old).mono more
      · exact own
    · exact started q new

theorem endAccount_newObject (detached : Bool) (others : Nat) :
    EndAccount (newObject detached others) := by
  refine ⟨lifeAccount_newObject detached others, fun p mem => ?_⟩
  rcases List.mem_cons.mp mem with rfl | mem
  · trivial
  · rw [List.eq_of_mem_replicate mem]
    trivial

/-- Where nobody joins anything new, `pthread_join` is not called on 0. -/
theorem LifeAccount.stays_sound (h : LifeAccount c) {mv : Move LifeAct} (ok : WindsDown c mv)
    (change : LifeChange c mv c') (sound : c.shared.broken = false) : c'.shared.broken = false := by
  cases change with
  | @moves i a cs p o here alive step =>
    cases step with
    | destroysZero last joins zero | destroysOwnZero last joins zero =>
      exact absurd zero (h.made here (Nat.succ_pos _) joins last)
    | joinsZero => exact ok.elim
    | _ => exact sound

/-- What a thread is at rest in: nothing, or a `pthread_join` on a pthread that has not ended. -/
def Standing.still (ended : List Nat) : Standing → Prop
  | .client n => n = 0
  | .joining _ k | .destroying k | .main _ (.destroying k) => k ∉ ended
  | .main _ .ended => True
  | _ => False

theorem still_at_rest (rests : lifetime.Resting WindsDown c) (sound : c.shared.broken = false)
    {p : Standing} (mem : p ∈ c.threads) : p.still c.shared.ended := by
  obtain ⟨i, here⟩ := List.mem_iff_getElem?.mp mem
  have blocked {a : LifeAct} (ok : ∀ cs, WindsDown c (.run i a cs)) :
      lifeBlock c.shared p a = none := by
    have blocked := rests.blocked here ok
    simpa [lifetime, sound] using blocked
  cases p with
  | client n =>
    cases n with
    | zero => rfl
    | succ n => cases blocked (a := .drop) fun _ => trivial
  | preparing => cases blocked (a := .write) fun _ => trivial
  | creating => cases blocked (a := .create true) fun _ => trivial
  | joining _ k | destroying k =>
    have blocked := blocked (a := .joined) fun _ => trivial
    show k ∉ c.shared.ended
    simpa [lifeBlock] using blocked
  | main k stage =>
    cases stage with
    | entering => cases blocked (a := .enter) fun _ => trivial
    | tested => cases blocked (a := .begin) fun _ => trivial
    | running => cases blocked (a := .finish) fun _ => trivial
    | returning => cases blocked (a := .dropOwn) fun _ => trivial
    | destroying j =>
      have blocked := blocked (a := .joined) fun _ => trivial
      show j ∉ c.shared.ended
      simpa [lifeBlock] using blocked
    | leaving => cases blocked (a := .exit) fun _ => trivial
    | ended => trivial

/-- A pthread that is alive at rest is in the destructor. -/
theorem destroying_of_alive {ended : List Nat} {p : Standing} {k : Nat} (still : p.still ended)
    (alive : 0 < p.isAlive k) : ∃ j, p = .main k (.destroying j) := by
  cases p with
  | main i stage =>
    cases stage with
    | destroying j =>
      have same : i = k := by
        by_contra other
        rw [Standing.isAlive, if_neg other] at alive
        · exact absurd alive (Nat.lt_irrefl 0)
        · exact nofun
      exact ⟨j, same ▸ rfl⟩
    | ended => cases alive
    | _ => exact still.elim
  | _ => cases alive

/-- No pthread is left at rest: one that is waits, in the destructor, for another that is too. -/
theorem EndAccount.ended_at_rest (h : EndAccount c)
    (still : ∀ p ∈ c.threads, p.still c.shared.ended)
    {k : Nat} (created : k < c.shared.created) : k ∈ c.shared.ended := by
  have lives {k : Nat} (created : k < c.shared.created) (missing : k ∉ c.shared.ended) :
      ∃ i j : Nat, c.threads[i]? = some (.main k (.destroying j)) := by
    have names := h.life.names k
    rw [if_pos created, List.count_eq_zero.mpr missing, Nat.add_zero] at names
    obtain ⟨i, p, here, alive⟩ := exists_of_total_pos (names ▸ Nat.one_pos)
    obtain ⟨j, rfl⟩ := destroying_of_alive (still p (List.mem_of_getElem? here)) alive
    exact ⟨i, j, here⟩
  by_contra missing
  obtain ⟨i, j, here⟩ := lives created missing
  have mem := List.mem_of_getElem? here
  obtain ⟨before, other⟩ := h.waits _ mem
  obtain ⟨i', j', there⟩ := lives before (still _ mem)
  have apart : i ≠ i' := by
    rintro rfl
    rw [here] at there
    cases there
    exact other rfl
  have both := add_le_total Standing.inDestructor apart here there
  have once := h.life.destroyed
  simp only [Standing.inDestructor] at both
  split at once <;> omega

theorem EndAccount.out_at_rest (h : EndAccount c) (still : ∀ p ∈ c.threads, p.still c.shared.ended)
    {p : Standing} (mem : p ∈ c.threads) : p = .client 0 ∨ ∃ k, p = .main k .ended := by
  have calm := still p mem
  have waits := h.waits p mem
  have ends {k : Nat} (created : k < c.shared.created) := h.ended_at_rest still created
  cases p with
  | client n =>
    obtain rfl : n = 0 := calm
    exact .inl rfl
  | joining _ k | destroying k => exact absurd (ends waits) calm
  | main k stage =>
    cases stage with
    | destroying j => exact absurd (ends waits.1) calm
    | ended => exact .inr ⟨k, rfl⟩
    | _ => exact calm.elim
  | _ => exact calm.elim

end AtRest

end Threads.Factory
