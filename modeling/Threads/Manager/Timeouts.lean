import Threads.Concurrency.Projection
import Threads.Manager.Bound
import Threads.Time.Deadlines

/-!
# The timeout of `Add`

The guard of `Add` and every round of its wait loop turn the timeout of the call into a
deadline, each with a clock reading of its own. The clock of a run never goes back.
-/

namespace Threads.Time

/-- The deadline of a timed lock. -/
def Acquire.deadline : Acquire → Option TimeUtil.Timespec
  | .timedLock abstime => some abstime
  | _ => none

def Wait.deadline : Wait → Option TimeUtil.Timespec
  | .untilTime abstime => some abstime
  | .forever => none

end Threads.Time

namespace Threads.Manager

open Concurrency Checked Time TimeUtil

/-- A manager and the last reading of the clock. -/
structure Timed where
  impl : Impl := {}
  clock : Int := 0

/-- Where a thread stands in `Add`, and the clock reading at its entry. -/
inductive Timing where
  | outside
  /-- Before the guard asks for the mutex. -/
  | entered (r : Request) (entry : Int)
  | acquiring (r : Request) (entry : Int)
  /-- In the wait loop. -/
  | inside (entry : Int)
  deriving DecidableEq

structure TimedThread where
  thread : Thread
  timing : Timing := .outside
  deriving DecidableEq

inductive TimedAct where
  /-- A block that is not of `Add`. -/
  | other (a : Act)
  | enter (r : Request) (reading : Int)
  | lock (reading : Int)
  /-- A block of `Add` that holds the mutex; `reading` is taken if it ends in a wait. -/
  | block (a : CallAct) (reading : Int)

abbrev TimedMove := Move TimedAct

inductive TimedEvent where
  | manager (e : Event)
  /-- A deadline that a call has handed to a lock or a wait. -/
  | deadline (entry timeout : Int) (abstime : Timespec)
  deriving DecidableEq

abbrev TimedEffect := Outcome Timed TimedThread TimedThread TimedEvent Cond

def Act.ofAdd : Act → Bool
  | .call a => a.ofAdd
  | .worker _ => false

/-- The entry of the `Add` in progress, if `a` is its next block. -/
def Timing.entryOf : Timing → CallAct → Option Int
  | .acquiring r entry, .add r' _ _ | .acquiring r entry, .addGuardFails r' =>
    if r' = r then some entry else none
  | .inside entry, .resumeAdd _ | .inside entry, .addTimesOut => some entry
  | _, _ => none

/-- A block of the manager, the clock and the deadline that it hands out. -/
def timedEffect (clock : Int) (timing : Timing) (handed : List TimedEvent) (o : Effect Thread) :
    TimedEffect where
  shared := ⟨o.shared, clock⟩
  self := ⟨o.self, timing⟩
  signals := o.signals
  spawned := o.spawned.map fun t => { thread := t }
  events := o.events.map .manager ++ handed

def handed (entry timeout : Int) (deadline : Option Timespec) : List TimedEvent :=
  deadline.toList.map (.deadline entry timeout)

def enterAddBlock (s : Timed) (v : TimedThread) (r : Request) (reading : Int) :
    Option TimedEffect :=
  if v.timing = .outside ∧ v.thread.call = .none ∧ v.thread.worker.makesCalls = true ∧
      s.clock ≤ reading then
    some { shared := { s with clock := reading }, self := { v with timing := .entered r reading } }
  else none

/-- `Guard g(mutex_, timeout)` -/
def lockAddBlock (s : Timed) (v : TimedThread) (reading : Int) : Option TimedEffect :=
  match v.timing with
  | .entered r entry =>
    if s.clock ≤ reading then
      (Guard.acquire reading r.timeout).map fun asked =>
        { shared := { s with clock := reading }
          self := { v with timing := .acquiring r entry }
          events := handed entry r.timeout asked.deadline }
    else none
  | _ => none

/-- A block under the mutex, up to the end of the call or to `max_monitor_.Wait(timeout)`. -/
def guardedAddBlock (s : Timed) (v : TimedThread) (a : CallAct) (reading : Int) :
    Option TimedEffect :=
  match v.timing.entryOf a, threadBlock s.impl v.thread (.call a) with
  | some entry, some o =>
    match o.self.call with
    | .addParked r =>
      if s.clock ≤ reading then
        (Monitor.wait reading r.timeout).map fun wait =>
          timedEffect reading (.inside entry) (handed entry r.timeout wait.deadline) o
      else none
    | _ => some (timedEffect s.clock .outside [] o)
  | _, _ => none

def timedBlock (s : Timed) (v : TimedThread) : TimedAct → Option TimedEffect
  | .other a =>
    if v.timing = .outside ∧ a.ofAdd = false then
      (threadBlock s.impl v.thread a).map (timedEffect s.clock .outside [])
    else none
  | .enter r reading => enterAddBlock s v r reading
  | .lock reading => lockAddBlock s v reading
  | .block a reading => guardedAddBlock s v a reading

/-- The threads around one manager, with the clock. -/
def timedManager : Program Timed TimedThread TimedAct TimedEvent Cond where
  waitsOn v := v.thread.waitsOn
  wake v := { v with thread := v.thread.wake }
  wake_awake v := threadManager.wake_awake v.thread
  block s v a := if s.impl.terminated then none else timedBlock s v a

def timedFresh (clients : List Nat) : Config Timed TimedThread TimedEvent where
  shared := {}
  threads := (fresh clients).threads.map fun t => { thread := t }

/-! ## The manager inside -/

def TimedEvent.ofManager : TimedEvent → Option Event
  | .manager e => some e
  | .deadline _ _ _ => none

theorem filterMap_handed (entry timeout : Int) (deadline : Option Timespec) :
    (handed entry timeout deadline).filterMap TimedEvent.ofManager = [] := by
  cases deadline <;> rfl

theorem timedEffect_spawned (o : Effect Thread) :
    (o.spawned.map fun t => ({ thread := t } : TimedThread)).map TimedThread.thread =
      o.spawned := by
  rw [List.map_map]
  exact List.map_id _

theorem timedEffect_events (es : List Event) {hs : List TimedEvent}
    (unseen : hs.filterMap TimedEvent.ofManager = []) :
    (es.map TimedEvent.manager ++ hs).filterMap TimedEvent.ofManager = es := by
  rw [List.filterMap_append, unseen, List.append_nil, List.filterMap_map]
  exact List.filterMap_some

/-- What a block of a timed manager is to the manager inside. -/
theorem timedBlock_cases {s : Timed} {v : TimedThread} {a : TimedAct} {o : TimedEffect}
    (h : timedBlock s v a = some o) :
    (∃ b o' clock timing hs, threadBlock s.impl v.thread b = some o' ∧
      hs.filterMap TimedEvent.ofManager = [] ∧ o = timedEffect clock timing hs o') ∨
    (o.shared.impl = s.impl ∧ o.self.thread = v.thread ∧ o.signals = [] ∧ o.spawned = [] ∧
      o.events.filterMap TimedEvent.ofManager = []) := by
  cases a with
  | other a =>
    simp only [timedBlock] at h
    split at h
    · obtain ⟨o', block, rfl⟩ := Option.map_eq_some_iff.mp h
      exact .inl ⟨a, o', _, _, [], block, rfl, rfl⟩
    · cases h
  | enter r reading =>
    simp only [timedBlock, enterAddBlock] at h
    split at h
    · obtain rfl := Option.some.inj h
      exact .inr ⟨rfl, rfl, rfl, rfl, rfl⟩
    · cases h
  | lock reading =>
    simp only [timedBlock, lockAddBlock] at h
    split at h
    · split at h
      · obtain ⟨asked, -, rfl⟩ := Option.map_eq_some_iff.mp h
        exact .inr ⟨rfl, rfl, rfl, rfl, filterMap_handed _ _ _⟩
      · cases h
    · cases h
  | block a reading =>
    simp only [timedBlock, guardedAddBlock] at h
    split at h
    · rename_i entry o' next block
      split at h
      · split at h
        · obtain ⟨wait, -, rfl⟩ := Option.map_eq_some_iff.mp h
          exact .inl ⟨_, o', _, _, _, block, filterMap_handed _ _ _, rfl⟩
        · cases h
      · obtain rfl := Option.some.inj h
        exact .inl ⟨_, o', _, _, [], block, rfl, rfl⟩
    · cases h

/-- The clock and the places of the calls aside, a timed manager is a manager. -/
def timedPart : Projection timedManager threadManager where
  shared := Timed.impl
  thread := TimedThread.thread
  event := TimedEvent.ofManager
  waitsOn _ := rfl
  wake _ := rfl
  block {s v a o} h := by
    simp only [timedManager] at h
    split at h
    · cases h
    · rename_i alive
      rcases timedBlock_cases h with ⟨b, o', clock, timing, hs, block, unseen, rfl⟩ | aside
      · refine .inl ⟨b, ?_⟩
        simp only [threadManager, alive, block, timedEffect, timedEffect_spawned,
          timedEffect_events _ unseen]
        rfl
      · exact .inr aside

/-- The manager inside begins as a new one, and its runs are runs of the manager. -/
theorem timedPart_reach {clients : List Nat} {c : Config Timed TimedThread TimedEvent}
    (h : timedManager.Reach (timedFresh clients) c) :
    threadManager.Reach (fresh clients) (timedPart.config c) := by
  have threads : ((fresh clients).threads.map fun t => ({ thread := t } : TimedThread)).map
      TimedThread.thread = (fresh clients).threads := by
    rw [List.map_map]
    exact List.map_id _
  have start : timedPart.config (timedFresh clients) = fresh clients := by
    unfold Projection.config timedFresh
    simp only [timedPart, threads]
    rfl
  rw [← start]
  exact timedPart.reach h

/-! ## Deadlines -/

/-- The deadline is no later than the entry of the call and its timeout allow. -/
def TimedEvent.honoured : TimedEvent → Prop
  | .manager _ => True
  | .deadline entry timeout abstime => nanos abstime ≤ (entry + timeout) * 1000000

instance : DecidablePred TimedEvent.honoured
  | .manager _ => isTrue trivial
  | .deadline _ _ _ => inferInstanceAs (Decidable (_ ≤ _))

/-- Every deadline that has been handed out honours the timeout of its call. -/
def HonoursTimeouts (c : Config Timed TimedThread TimedEvent) : Prop :=
  ∀ e ∈ c.log, e.2.honoured

instance : DecidablePred HonoursTimeouts := fun _ => inferInstanceAs (Decidable (∀ e ∈ _, _))

/-- The timeout with which a block of `Add` begins to wait, if it does. -/
def addWaits (s : Impl) (id : Nat) : Call → CallAct → Option Int
  | .none, .add r env _ =>
    if reachesCanSleep s env && (s.canSleep id && decide (0 ≤ r.timeout)) then some r.timeout
    else none
  | .addWoken r, .resumeAdd _ => if s.full then some r.timeout else none
  | _, _ => none

/-- Until a timed lock is asked for, the clock moves by no more than the timeout loses when it
becomes an `int`; and a timed wait begins at the clock reading of the entry. -/
def Timely (c : Config Timed TimedThread TimedEvent) : TimedMove → Prop
  | .run i (.lock reading) _ => ∀ v ∈ c.threads[i]?, ∀ r entry, v.timing = .entered r entry →
    0 < r.timeout → reading - entry ≤ r.timeout - toInt r.timeout
  | .run i (.block a reading) _ => ∀ v ∈ c.threads[i]?, ∀ entry timeout,
    v.timing.entryOf a = some entry →
    addWaits c.shared.impl v.thread.ref.id v.thread.call a = some timeout → timeout ≠ 0 →
    reading ≤ entry
  | _ => True

/-! ## What is handed out -/

theorem honoured_handed {entry timeout : Int} {deadline : Option Timespec} :
    (∀ e ∈ handed entry timeout deadline, e.honoured) ↔
      ∀ abstime ∈ deadline, nanos abstime ≤ (entry + timeout) * 1000000 := by
  cases deadline with
  | none => simp [handed]
  | some abstime => simp [handed, TimedEvent.honoured]

/-- The deadline of a timed lock is that of its reading and of the timeout as an `int`. -/
theorem acquire_deadline {reading timeout : Int} {asked : Acquire}
    (asks : Guard.acquire reading timeout = some asked) :
    if 0 < timeout then ∃ abstime, asked.deadline = some abstime ∧
      nanos abstime = (reading + toInt timeout) * 1000000
    else asked.deadline = none := by
  unfold Guard.acquire at asks
  split at asks
  · obtain rfl := Option.some.inj asks
    rw [if_neg (by omega)]
    rfl
  · split at asks
    · obtain rfl := Option.some.inj asks
      rw [if_neg (by omega)]
      rfl
    · rw [if_pos (by omega)]
      obtain ⟨abstime, locked, rfl⟩ := Option.map_eq_some_iff.mp asks
      obtain ⟨sum, added, made⟩ := Option.bind_eq_some_iff.mp locked
      obtain ⟨fits, rfl⟩ := add_eq_some.mp added
      obtain ⟨abstime', made', denotes⟩ := nanos_toTimespec fits
      obtain rfl := Option.some.inj (made.symm.trans made')
      exact ⟨abstime, rfl, by rw [denotes, Int.add_comm]⟩

theorem wait_deadline {reading timeout : Int} {wait : Wait}
    (waits : Monitor.wait reading timeout = some wait) :
    if timeout ≠ 0 then ∃ abstime, wait.deadline = some abstime ∧
      nanos abstime = (reading + timeout) * 1000000
    else wait.deadline = none := by
  unfold Monitor.wait Monitor.waitForTimeRelative at waits
  split at waits
  · obtain rfl := Option.some.inj waits
    rw [if_neg (by omega)]
    rfl
  · rw [if_pos ‹_›]
    obtain ⟨sum, added, rest⟩ := Option.bind_eq_some_iff.mp waits
    obtain ⟨fits, rfl⟩ := add_eq_some.mp added
    obtain ⟨abstime, made, rest⟩ := Option.bind_eq_some_iff.mp rest
    obtain rfl := Option.some.inj rest
    obtain ⟨abstime', made', denotes⟩ := nanos_toTimespec fits
    obtain rfl := Option.some.inj (made.symm.trans made')
    exact ⟨abstime, rfl, denotes⟩

theorem honoured_acquire {reading entry timeout : Int} {asked : Acquire}
    (asks : Guard.acquire reading timeout = some asked) :
    (∀ e ∈ handed entry timeout asked.deadline, e.honoured) ↔
      (0 < timeout → reading - entry ≤ timeout - toInt timeout) := by
  have deadline := acquire_deadline asks
  rw [honoured_handed]
  by_cases timed : 0 < timeout
  · rw [if_pos timed] at deadline
    obtain ⟨abstime, handed, denotes⟩ := deadline
    simp only [handed, Option.mem_def, Option.some.injEq, forall_eq', denotes, timed, true_imp_iff]
    omega
  · rw [if_neg timed] at deadline
    simp [deadline, timed]

theorem honoured_wait {reading entry timeout : Int} {wait : Wait}
    (waits : Monitor.wait reading timeout = some wait) :
    (∀ e ∈ handed entry timeout wait.deadline, e.honoured) ↔
      (timeout ≠ 0 → reading ≤ entry) := by
  have deadline := wait_deadline waits
  rw [honoured_handed]
  by_cases timed : timeout ≠ 0
  · rw [if_pos timed] at deadline
    obtain ⟨abstime, handed, denotes⟩ := deadline
    simp only [handed, Option.mem_def, Option.some.injEq, forall_eq', denotes, ne_eq, timed,
      not_false_eq_true, true_imp_iff]
    omega
  · rw [if_neg timed] at deadline
    simp [deadline, not_not.mp timed]

/-! ## One step -/

section Step

variable {s : Impl} {id : Nat} {d : Call} {a : CallAct} {o : Effect Call}

/-- The timeout of a call that waits for room. -/
def Call.parkedWith : Call → Option Int
  | .addParked r => some r.timeout
  | _ => .none

theorem addBlock_parkedWith (s : Impl) (id : Nat) (r : Request) (env : Surroundings) (now : Int) :
    (addBlock s id r env now).self.parkedWith =
      if reachesCanSleep s env && (s.canSleep id && decide (0 ≤ r.timeout)) then some r.timeout
      else none := by
  have same : (s.removeExpiredTasks env).canSleep id = s.canSleep id := rfl
  unfold addBlock reachesCanSleep
  by_cases opened : s.state = .started
  · rw [if_neg (not_not.mpr opened)]
    dsimp only
    cases raised : (s.expiry env).raised with
    | true => simp [Call.parkedWith]
    | false =>
      cases full : (s.removeExpiredTasks env).full with
      | false => simp [Call.parkedWith, pushBlock]
      | true =>
        rw [same]
        by_cases sleeps : (s.canSleep id && decide (0 ≤ r.timeout)) = true
        · simp [Call.parkedWith, opened, sleeps]
        · simp [Call.parkedWith, sleeps]
  · rw [if_pos opened]
    simp [Call.parkedWith, opened]

theorem callBlock_parkedWith (fires : callBlock s id d a = some o) (adds : a.ofAdd = true) :
    o.self.parkedWith = addWaits s id d a := by
  have step := callStep_of_block fires
  cases a with
  | add r env now =>
    obtain rfl : d = .none := by cases step <;> rfl
    simp only [callBlock] at fires
    split at fires
    · obtain rfl := Option.some.inj fires
      exact addBlock_parkedWith s id r env now
    · cases fires
  | addGuardFails r => cases step; rfl
  | resumeAdd now =>
    cases step with
    | resumesFull full => exact (if_pos full).symm
    | resumesAndAdds room => exact (if_neg (Bool.eq_false_iff.mp room)).symm
  | addTimesOut => cases step; rfl
  | _ => cases adds

theorem threadBlock_parkedWith {t : Thread} {o : Effect Thread}
    (fires : threadBlock s t (.call a) = some o) (adds : a.ofAdd = true) :
    o.self.call.parkedWith = addWaits s t.ref.id t.call a := by
  simp only [threadBlock] at fires
  split at fires
  · obtain ⟨o, block, rfl⟩ := Option.map_eq_some_iff.mp fires
    exact callBlock_parkedWith block adds
  · cases fires

end Step

section Timed

variable {c c' : Config Timed TimedThread TimedEvent} {mv : TimedMove}

theorem ofAdd_of_entryOf {timing : Timing} {a : CallAct} {entry : Int}
    (next : timing.entryOf a = some entry) : a.ofAdd = true := by
  unfold Timing.entryOf at next
  split at next <;> first | rfl | cases next

/-- What a guarded block hands out honours the timeout exactly if its wait begins in time. -/
theorem honoured_guardedAdd {s : Timed} {v : TimedThread} {a : CallAct} {reading : Int}
    {o : TimedEffect} (fires : guardedAddBlock s v a reading = some o) :
    (∀ e ∈ o.events, e.honoured) ↔ ∀ entry timeout, v.timing.entryOf a = some entry →
      addWaits s.impl v.thread.ref.id v.thread.call a = some timeout → timeout ≠ 0 →
      reading ≤ entry := by
  have quiet {es : List Event} (e : TimedEvent) (mem : e ∈ es.map TimedEvent.manager) :
      e.honoured := by
    obtain ⟨e, -, rfl⟩ := List.mem_map.mp mem
    trivial
  unfold guardedAddBlock at fires
  split at fires
  · rename_i entry o' next block
    have waits := threadBlock_parkedWith block (ofAdd_of_entryOf next)
    split at fires
    · rename_i r parks
      rw [parks] at waits
      split at fires
      · obtain ⟨wait, asks, rfl⟩ := Option.map_eq_some_iff.mp fires
        simp only [timedEffect, List.mem_append, or_imp, forall_and, honoured_wait asks]
        constructor
        · rintro ⟨-, early⟩ entry' timeout next' waits' timed
          obtain rfl := Option.some.inj (next.symm.trans next')
          obtain rfl := Option.some.inj (waits.trans waits')
          exact early timed
        · intro early
          exact ⟨quiet, early entry r.timeout next waits.symm⟩
      · cases fires
    · rename_i ends
      obtain rfl := Option.some.inj fires
      refine iff_of_true (by simpa [timedEffect] using quiet) ?_
      intro _ timeout _ waits'
      rw [← waits] at waits'
      unfold Call.parkedWith at waits'
      split at waits'
      · exact absurd ‹_› (ends _)
      · cases waits'
  · cases fires

/-- A step keeps every deadline honoured exactly if it is timely. -/
theorem honoursTimeouts_step (next : timedManager.Step c mv c') :
    HonoursTimeouts c' ↔ HonoursTimeouts c ∧ Timely c mv := by
  cases next with
  | spurious => exact (and_iff_left trivial).symm
  | @run i a cs v o ts here fires delivered =>
    have log : HonoursTimeouts ⟨o.shared, ts.set i o.self ++ o.spawned,
        c.log ++ o.events.map (Prod.mk i)⟩ ↔ HonoursTimeouts c ∧ ∀ e ∈ o.events, e.honoured := by
      simp [HonoursTimeouts, or_imp, forall_and]
    rw [log]
    apply and_congr_right
    intro _
    simp only [timedManager] at fires
    split at fires
    · cases fires
    · cases a with
      | other a =>
        simp only [timedBlock] at fires
        split at fires
        · obtain ⟨o, block, rfl⟩ := Option.map_eq_some_iff.mp fires
          refine iff_of_true ?_ trivial
          simp [timedEffect, TimedEvent.honoured]
        · cases fires
      | enter r reading =>
        simp only [timedBlock, enterAddBlock] at fires
        split at fires
        · obtain rfl := Option.some.inj fires
          exact iff_of_true (fun _ mem => absurd mem List.not_mem_nil) trivial
        · cases fires
      | lock reading =>
        simp only [timedBlock, lockAddBlock] at fires
        split at fires
        · rename_i r entry place
          split at fires
          · obtain ⟨asked, asks, rfl⟩ := Option.map_eq_some_iff.mp fires
            rw [honoured_acquire asks]
            simp [Timely, here, place]
          · cases fires
        · cases fires
      | block a reading =>
        rw [honoured_guardedAdd fires]
        simp [Timely, here]

end Timed

/-- Every deadline of a run honours the timeout of its call exactly if each lock is asked for in
time and each wait begins at the clock reading at which the call was entered. -/
theorem timeouts_honoured_iff (clients : List Nat) (mvs : List TimedMove) :
    timedManager.Throughout HonoursTimeouts (timedFresh clients) mvs ↔
      timedManager.EachStep Timely (timedFresh clients) mvs := by
  apply Program.throughout_iff (fun h => h)
  · intro c mv c' honours timely next
    exact (honoursTimeouts_step next).mpr ⟨honours, timely⟩
  · intro c mv c' _ late next honours
    exact late ((honoursTimeouts_step next).mp honours).2
  · intro e mem
    cases mem

def timedMove : Move Act → TimedMove
  | .run i a cs => .run i (.other a) cs
  | .spurious i => .spurious i

/-- An `Add` that gets its mutex at once. -/
def addTimed (client : Nat) (r : Request) (reading : Int) : List TimedMove :=
  [.run client (.enter r reading) [], .run client (.lock reading) [],
    .run client (.block (.add r ⟨fun _ => 0, none⟩ 0) reading) []]

/-- A producer waits for a second, is woken after 900 ms and finds the queue full again. -/
def overtaken : List TimedMove :=
  (fillQueue.take 12).map timedMove ++ addTimed 0 ⟨10, 0, 0⟩ 5000 ++
    addTimed 0 ⟨11, 1000, 0⟩ 5000 ++
    [.run 2 (.other (.worker (.iterate ⟨fun _ => 0, none⟩))) [0]] ++ addTimed 1 ⟨12, 0, 0⟩ 5900 ++
    [.run 0 (.block (.resumeAdd 0) 5900) []]

/-- A call that was entered at 5000 ms for 1000 ms waits until 6900 ms. -/
theorem timeout_extended : ∃ c, timedManager.Reach (timedFresh [1, 2]) c ∧
    c.log.getLast? = some (0, .deadline 5000 1000 ⟨6, 900000000⟩) ∧ ¬HonoursTimeouts c :=
  timedManager.exists_reach _ (fun c =>
    c.log.getLast? = some (0, .deadline 5000 1000 ⟨6, 900000000⟩) ∧ ¬HonoursTimeouts c) overtaken
    (by decide)

end Threads.Manager
