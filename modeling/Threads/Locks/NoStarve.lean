import Threads.Concurrency.Run

/-!
# `NoStarveReadWriteMutex`

`AcquireRead`, `AcquireWrite`, the attempts and `Release`, with each access to
`writer_waiting_`, each operation of `mutex_` and each of the rwlock a block of its own. A
reader that finds a writer waiting passes through `mutex_`, which the writer holds.
-/

namespace Threads.NoStarve

open Concurrency

/-- Where a client stands in the operation it has called. -/
inductive Place where
  | outside
  /-- In `AcquireRead`, a writer being seen to wait: before `mutex_.Lock()`. -/
  | locking
  | unlocking
  /-- Before `ReadWriteMutex::AcquireRead()`. -/
  | reading
  /-- In `AcquireWrite`, the attempt having failed: before `mutex_.Lock()`. -/
  | writeLocking
  | setting
  /-- Before `ReadWriteMutex::AcquireWrite()`. -/
  | writing
  | clearing
  | writeUnlocking
  deriving DecidableEq, Repr

/-- A client and the locks it holds. -/
structure Client where
  place : Place := .outside
  reads : Nat := 0
  writes : Bool := false
  deriving DecidableEq, Repr

/-- The rwlock is held by `readers` readers or by one writer. A call that cannot be granted
blocks, also one that its own caller stands in the way of. -/
structure RWMutex where
  readers : Nat := 0
  writer : Bool := false
  mutex : Bool := false
  writerWaiting : Bool := false
  deriving DecidableEq, Repr

inductive Operation where
  | acquireRead
  | acquireWrite
  | attemptRead
  | attemptWrite
  | release
  deriving DecidableEq, Repr

inductive RWAct where
  | call (op : Operation)
  /-- The next step of the operation in progress. -/
  | proceed
  deriving DecidableEq, Repr

inductive RWEvent where
  /-- `AcquireRead` has tested `writer_waiting_`. -/
  | tested (waiting : Bool)
  | set
  | cleared
  | obtainedRead
  | obtainedWrite
  | attemptedRead (done : Bool)
  | released
  deriving DecidableEq, Repr

/-- No condition variable is used. -/
abbrev RWEffect (Self : Type) := Outcome RWMutex Self Client RWEvent Empty

namespace RWMutex

/-- `pthread_rwlock_rdlock` does not block. -/
def readable (s : RWMutex) : Bool := !s.writer

def writable (s : RWMutex) : Bool := !s.writer && s.readers == 0

end RWMutex

def acquireReadBlock (s : RWMutex) (v : Client) : RWEffect Client :=
  { shared := s
    self := { v with place := if s.writerWaiting then .locking else .reading }
    events := [.tested s.writerWaiting] }

/-- `AttemptWrite`, and the return of `AcquireWrite` if it succeeds. -/
def acquireWriteBlock (s : RWMutex) (v : Client) : RWEffect Client :=
  if s.writable then
    { shared := { s with writer := true }
      self := { v with writes := true }
      events := [.obtainedWrite] }
  else { shared := s, self := { v with place := .writeLocking } }

def attemptReadBlock (s : RWMutex) (v : Client) : RWEffect Client :=
  if s.readable then
    { shared := { s with readers := s.readers + 1 }
      self := { v with reads := v.reads + 1 }
      events := [.attemptedRead true] }
  else { shared := s, self := v, events := [.attemptedRead false] }

def attemptWriteBlock (s : RWMutex) (v : Client) : RWEffect Client :=
  if s.writable then
    { shared := { s with writer := true }
      self := { v with writes := true }
      events := [.obtainedWrite] }
  else { shared := s, self := v }

/-- `pthread_rwlock_unlock` gives back the write lock, or a read lock. -/
def releaseBlock (s : RWMutex) (v : Client) : Option (RWEffect Client) :=
  if v.writes then
    some {
      shared := { s with writer := false }
      self := { v with writes := false }
      events := [.released] }
  else if 0 < v.reads then
    some
      { shared := { s with readers := s.readers - 1 }
        self := { v with reads := v.reads - 1 }
        events := [.released] }
  else none

def proceedBlock (s : RWMutex) (v : Client) : Option (RWEffect Client) :=
  match v.place with
  | .outside => none
  | .locking =>
    if s.mutex then none
    else some { shared := { s with mutex := true }, self := { v with place := .unlocking } }
  | .unlocking => some { shared := { s with mutex := false }, self := { v with place := .reading } }
  | .reading =>
    if s.readable then
      some
        { shared := { s with readers := s.readers + 1 }
          self := { v with place := .outside, reads := v.reads + 1 }
          events := [.obtainedRead] }
    else none
  | .writeLocking =>
    if s.mutex then none
    else some { shared := { s with mutex := true }, self := { v with place := .setting } }
  | .setting =>
    some
      { shared := { s with writerWaiting := true }
        self := { v with place := .writing }
        events := [.set] }
  | .writing =>
    if s.writable then
      some
        { shared := { s with writer := true }
          self := { v with place := .clearing, writes := true }
          events := [.obtainedWrite] }
    else none
  | .clearing =>
    some
      { shared := { s with writerWaiting := false }
        self := { v with place := .writeUnlocking }
        events := [.cleared] }
  | .writeUnlocking =>
    some { shared := { s with mutex := false }, self := { v with place := .outside } }

/-- The operation up to its first access to `mutex_`, or the rwlock if it can block. -/
def callBlock (s : RWMutex) (v : Client) : Operation → Option (RWEffect Client)
  | .acquireRead => some (acquireReadBlock s v)
  | .acquireWrite => some (acquireWriteBlock s v)
  | .attemptRead => some (attemptReadBlock s v)
  | .attemptWrite => some (attemptWriteBlock s v)
  | .release => releaseBlock s v

def rwBlock (s : RWMutex) (v : Client) : RWAct → Option (RWEffect Client)
  | .call op => if v.place = .outside then callBlock s v op else none
  | .proceed => proceedBlock s v

/-- Any number of clients of one mutex. -/
def readersAndWriters : Program RWMutex Client RWAct RWEvent Empty where
  waitsOn _ := none
  wake := id
  wake_awake _ := rfl
  block := rwBlock

def start (clients : Nat) : Config RWMutex Client RWEvent where
  shared := {}
  threads := List.replicate clients {}

/-! ## What a step can do -/

/-- The steps of the two operations, and those that leave `mutex_` and the flag alone. -/
inductive RWStep (s : RWMutex) (v : Client) : RWEffect Client → Prop
  | tests (place : v.place = .outside) : RWStep s v (acquireReadBlock s v)
  | locks {p} (free : s.mutex = false)
      (place : v.place = .locking ∧ p = .unlocking ∨ v.place = .writeLocking ∧ p = .setting) :
      RWStep s v { shared := { s with mutex := true }, self := { v with place := p } }
  | unlocks {p}
      (place : v.place = .unlocking ∧ p = .reading ∨ v.place = .writeUnlocking ∧ p = .outside) :
      RWStep s v { shared := { s with mutex := false }, self := { v with place := p } }
  | reads (place : v.place = .reading) (readable : s.readable = true) :
      RWStep s v
        { shared := { s with readers := s.readers + 1 }
          self := { v with place := .outside, reads := v.reads + 1 }
          events := [.obtainedRead] }
  | sets (place : v.place = .setting) :
      RWStep s v
        { shared := { s with writerWaiting := true }
          self := { v with place := .writing }
          events := [.set] }
  | writes (place : v.place = .writing) (writable : s.writable = true) :
      RWStep s v
        { shared := { s with writer := true }
          self := { v with place := .clearing, writes := true }
          events := [.obtainedWrite] }
  | clears (place : v.place = .clearing) :
      RWStep s v
        { shared := { s with writerWaiting := false }
          self := { v with place := .writeUnlocking }
          events := [.cleared] }
  | aside {o} (place : v.place = .outside)
      (self : o.self.place = .outside ∨ o.self.place = .writeLocking)
      (mutex : o.shared.mutex = s.mutex) (flag : o.shared.writerWaiting = s.writerWaiting)
      (quiet : o.signals = [] ∧ o.spawned = [])
      (events : ∀ e ∈ o.events,
        e = .obtainedWrite ∨ (∃ done, e = .attemptedRead done) ∨ e = .released) :
      RWStep s v o

theorem rwStep_of_proceed {s : RWMutex} {v : Client} {o : RWEffect Client}
    (h : proceedBlock s v = some o) : RWStep s v o := by
  unfold proceedBlock at h
  cases place : v.place <;> simp only [place] at h
  case outside => cases h
  case locking =>
    split at h
    · cases h
    · obtain rfl := Option.some.inj h
      exact .locks (by simpa using ‹¬s.mutex = true›) (.inl ⟨place, rfl⟩)
  case unlocking =>
    obtain rfl := Option.some.inj h
    exact .unlocks (.inl ⟨place, rfl⟩)
  case reading =>
    split at h
    · obtain rfl := Option.some.inj h
      exact .reads place ‹_›
    · cases h
  case writeLocking =>
    split at h
    · cases h
    · obtain rfl := Option.some.inj h
      exact .locks (by simpa using ‹¬s.mutex = true›) (.inr ⟨place, rfl⟩)
  case setting =>
    obtain rfl := Option.some.inj h
    exact .sets place
  case writing =>
    split at h
    · obtain rfl := Option.some.inj h
      exact .writes place ‹_›
    · cases h
  case clearing =>
    obtain rfl := Option.some.inj h
    exact .clears place
  case writeUnlocking =>
    obtain rfl := Option.some.inj h
    exact .unlocks (.inr ⟨place, rfl⟩)

theorem rwStep_of_call {s : RWMutex} {v : Client} {op : Operation} {o : RWEffect Client}
    (place : v.place = .outside) (h : callBlock s v op = some o) : RWStep s v o := by
  cases op with
  | acquireRead =>
    obtain rfl := Option.some.inj h
    exact .tests place
  | acquireWrite =>
    obtain rfl := Option.some.inj h
    unfold acquireWriteBlock
    split
    · exact .aside place (.inl place) rfl rfl ⟨rfl, rfl⟩ (by simp)
    · exact .aside place (.inr rfl) rfl rfl ⟨rfl, rfl⟩ (by simp)
  | attemptRead =>
    obtain rfl := Option.some.inj h
    unfold attemptReadBlock
    split <;> exact .aside place (.inl place) rfl rfl ⟨rfl, rfl⟩ (by simp)
  | attemptWrite =>
    obtain rfl := Option.some.inj h
    unfold attemptWriteBlock
    split <;> exact .aside place (.inl place) rfl rfl ⟨rfl, rfl⟩ (by simp)
  | release =>
    simp only [callBlock, releaseBlock] at h
    split at h
    · obtain rfl := Option.some.inj h
      exact .aside place (.inl place) rfl rfl ⟨rfl, rfl⟩ (by simp)
    · split at h
      · obtain rfl := Option.some.inj h
        exact .aside place (.inl place) rfl rfl ⟨rfl, rfl⟩ (by simp)
      · cases h

theorem rwStep_of_block {s : RWMutex} {v : Client} {a : RWAct} {o : RWEffect Client}
    (h : rwBlock s v a = some o) : RWStep s v o := by
  cases a with
  | proceed => exact rwStep_of_proceed h
  | call op =>
    simp only [rwBlock] at h
    split at h
    · exact rwStep_of_call ‹_› h
    · cases h

section OneStep

variable {s : RWMutex} {v : Client} {o : RWEffect Client}

theorem RWStep.of_set (h : RWStep s v o) (event : .set ∈ o.events) : o.self.place = .writing := by
  cases h with
  | sets => rfl
  | aside _ _ _ _ _ events => simpa using events _ event
  | _ => simp_all [acquireReadBlock]

/-- Only the test that finds no writer waiting lets the reader go on to the rwlock. -/
theorem RWStep.of_tested (h : RWStep s v o) {b : Bool} (event : .tested b ∈ o.events) :
    o.events = [.tested b] ∧ (s.writerWaiting = true → o.self.place = .locking) := by
  cases h with
  | tests =>
    obtain rfl : b = s.writerWaiting := by simpa [acquireReadBlock] using event
    exact ⟨rfl, fun waiting => if_pos waiting⟩
  | aside _ _ _ _ _ events => simpa using events _ event
  | _ => simp at event

theorem RWStep.of_obtainedRead (h : RWStep s v o) (event : .obtainedRead ∈ o.events) :
    v.place = .reading ∧ o.events = [.obtainedRead] := by
  cases h with
  | reads place => exact ⟨place, rfl⟩
  | aside _ _ _ _ _ events => simpa using events _ event
  | _ => simp [acquireReadBlock] at event

theorem RWStep.of_writing (h : RWStep s v o) (place : v.place = .writing) :
    .obtainedWrite ∈ o.events := by
  cases h with
  | writes => exact List.mem_singleton_self _
  | _ => simp_all

theorem RWStep.of_locking (h : RWStep s v o) (place : v.place = .locking) : s.mutex = false := by
  cases h with
  | locks free => exact free
  | _ => simp_all

end OneStep

theorem RWStep.quiet {s : RWMutex} {v : Client} {o : RWEffect Client} (h : RWStep s v o) :
    o.signals = [] ∧ o.spawned = [] := by
  cases h with
  | aside _ _ _ _ quiet => exact quiet
  | _ => exact ⟨rfl, rfl⟩

/-- A step moves one client. -/
inductive RWChange (c : Config RWMutex Client RWEvent) : Config RWMutex Client RWEvent → Prop
  | moves {k v o} (here : c.threads[k]? = some v) (step : RWStep c.shared v o) :
      RWChange c ⟨o.shared, c.threads.set k o.self, c.log ++ o.events.map (Prod.mk k)⟩

theorem rwChange_of_step {c c' : Config RWMutex Client RWEvent} {mv : Move RWAct}
    (h : readersAndWriters.Step c mv c') : RWChange c c' := by
  cases h with
  | spurious here waits => exact absurd rfl waits
  | @run k a cs v o ts here fires delivered =>
    have step := rwStep_of_block fires
    obtain ⟨silent, childless⟩ := step.quiet
    rw [silent] at delivered
    obtain rfl := Option.some.inj delivered
    rw [childless, List.append_nil]
    exact .moves here step

/-! ## Who holds `mutex_` -/

def Place.holdsMutex : Place → Nat
  | .unlocking | .setting | .writing | .clearing | .writeUnlocking => 1
  | _ => 0

/-- Between setting the flag and clearing it. -/
def Place.signals : Place → Nat
  | .writing | .clearing => 1
  | _ => 0

def Place.aboutToSet : Place → Nat
  | .setting => 1
  | _ => 0

def atPlaces (f : Place → Nat) (v : Client) : Nat := f v.place

@[simp] theorem atPlaces_apply (f : Place → Nat) (v : Client) : atPlaces f v = f v.place := rfl

/-- `mutex_` is held by one client in its operation, and the flag is that of one writer. -/
structure MutexAccount (c : Config RWMutex Client RWEvent) : Prop where
  mutex : total (atPlaces Place.holdsMutex) c.threads = c.shared.mutex.toNat
  flag : total (atPlaces Place.signals) c.threads = c.shared.writerWaiting.toNat

section Account

variable {c c' : Config RWMutex Client RWEvent}

/-- Who has set the flag, or is about to, holds the mutex. -/
theorem signals_le (ts : List Client) :
    total (atPlaces Place.signals) ts + total (atPlaces Place.aboutToSet) ts ≤
      total (atPlaces Place.holdsMutex) ts := by
  rw [← total_add]
  apply total_mono
  intro v _
  simp only [atPlaces_apply]
  cases v.place <;> decide

theorem MutexAccount.one (h : MutexAccount c) :
    total (atPlaces Place.holdsMutex) c.threads ≤ 1 := by
  rw [h.mutex]
  exact Bool.toNat_le c.shared.mutex

/-- Nobody has set the flag before the client that is about to. -/
theorem MutexAccount.lowered (h : MutexAccount c) {k : Nat} {v : Client}
    (here : c.threads[k]? = some v) (place : v.place = .setting) :
    c.shared.writerWaiting = false := by
  have own := le_total_of_getElem? (atPlaces Place.aboutToSet) here
  have most := signals_le c.threads
  have one := h.one
  have flag := h.flag
  rw [atPlaces, place] at own
  cases raised : c.shared.writerWaiting with
  | false => rfl
  | true =>
    rw [raised] at flag
    simp only [Place.aboutToSet, Bool.toNat_true] at own flag
    omega

theorem RWStep.account {s : RWMutex} {v : Client} {o : RWEffect Client} (h : RWStep s v o)
    (held : v.place.holdsMutex ≤ s.mutex.toNat) (raised : v.place.signals ≤ s.writerWaiting.toNat)
    (lowered : v.place = .setting → s.writerWaiting = false) :
    o.shared.mutex.toNat + v.place.holdsMutex = s.mutex.toNat + o.self.place.holdsMutex ∧
      o.shared.writerWaiting.toNat + v.place.signals =
        s.writerWaiting.toNat + o.self.place.signals := by
  have mutex := Bool.toNat_le s.mutex
  have flag := Bool.toNat_le s.writerWaiting
  cases h with
  | tests place =>
    rw [place]
    unfold acquireReadBlock
    dsimp only
    split <;> exact ⟨rfl, rfl⟩
  | locks free place =>
    rw [free]
    rcases place with ⟨place, rfl⟩ | ⟨place, rfl⟩ <;> rw [place] <;> exact ⟨rfl, rfl⟩
  | unlocks place =>
    rcases place with ⟨place, rfl⟩ | ⟨place, rfl⟩ <;> rw [place] at held ⊢ <;>
      refine ⟨?_, rfl⟩ <;> simp only [Place.holdsMutex, Bool.toNat_false] at held ⊢ <;> omega
  | reads place => rw [place]; exact ⟨rfl, rfl⟩
  | sets place =>
    rw [place, lowered place]
    exact ⟨rfl, rfl⟩
  | writes place => rw [place]; exact ⟨rfl, rfl⟩
  | clears place =>
    rw [place] at raised ⊢
    refine ⟨rfl, ?_⟩
    simp only [Place.signals, Bool.toNat_false] at raised ⊢
    omega
  | aside place self mutex flag =>
    rw [place, mutex, flag]
    rcases self with self | self <;> rw [self] <;> exact ⟨rfl, rfl⟩

theorem mutexAccount_step (h : MutexAccount c) (change : RWChange c c') : MutexAccount c' := by
  cases change with
  | @moves k v o here step =>
    have held := le_total_of_getElem? (atPlaces Place.holdsMutex) here
    have raised := le_total_of_getElem? (atPlaces Place.signals) here
    rw [h.mutex] at held
    rw [h.flag] at raised
    obtain ⟨mutex, flag⟩ := step.account held raised (h.lowered here)
    have holders := total_set (atPlaces Place.holdsMutex) here o.self
    have writers := total_set (atPlaces Place.signals) here o.self
    rw [h.mutex, atPlaces_apply, atPlaces_apply] at holders
    rw [h.flag, atPlaces_apply, atPlaces_apply] at writers
    constructor
    · show total (atPlaces Place.holdsMutex) (c.threads.set k o.self) = o.shared.mutex.toNat
      omega
    · show total (atPlaces Place.signals) (c.threads.set k o.self) = o.shared.writerWaiting.toNat
      omega

end Account

theorem mutexAccount_start (clients : Nat) : MutexAccount (start clients) := by
  have none (f : Place → Nat) (zero : f .outside = 0) :
      total (atPlaces f) (start clients).threads = 0 :=
    total_eq_zero.mpr fun v mem => by
      rw [List.eq_of_mem_replicate mem]
      exact zero
  exact ⟨none _ rfl, none _ rfl⟩

theorem mutexAccount_reach {clients : Nat} {c : Config RWMutex Client RWEvent}
    (h : readersAndWriters.Reach (start clients) c) : MutexAccount c :=
  h.invariant (mutexAccount_start clients) fun inv _ step =>
    mutexAccount_step inv (rwChange_of_step step)

/-! ## Where each client stands -/

def placeAt (c : Config RWMutex Client RWEvent) (i : Nat) : Place :=
  Program.look Client.place .outside c.threads i

section PlaceAt

variable {c : Config RWMutex Client RWEvent} {i j k : Nat}

theorem placeAt_of_getElem? {v : Client} (here : c.threads[i]? = some v) : placeAt c i = v.place :=
  Program.look_of_getElem? Client.place .outside here

theorem getElem?_of_placeAt (inside : placeAt c i ≠ .outside) :
    ∃ v, c.threads[i]? = some v ∧ v.place = placeAt c i := by
  cases here : c.threads[i]? with
  | none => exact absurd (by simp [placeAt, Program.look, here]) inside
  | some v => exact ⟨v, rfl, (placeAt_of_getElem? here).symm⟩

theorem placeAt_moves {v : Client} (here : c.threads[k]? = some v) (o : RWEffect Client)
    (log : List (Nat × RWEvent)) (i : Nat) :
    placeAt ⟨o.shared, c.threads.set k o.self, log⟩ i =
      if i = k then o.self.place else placeAt c i := by
  have after : Program.look Client.place .outside (c.threads.set k o.self ++ []) i =
      if i = k then o.self.place else placeAt c i :=
    Program.look_run readersAndWriters (fun _ waits => absurd rfl waits)
      (Program.Woken.refl readersAndWriters c.threads) here o.self []
      (fun _ mem => absurd mem List.not_mem_nil) i
  rwa [List.append_nil] at after

/-- The mutex has one holder at most. -/
theorem MutexAccount.unique (h : MutexAccount c) (first : (placeAt c i).holdsMutex = 1)
    (second : (placeAt c j).holdsMutex = 1) : i = j := by
  have inside {p : Place} (holds : p.holdsMutex = 1) : p ≠ .outside := by
    intro outside
    rw [outside] at holds
    exact absurd holds (by decide)
  obtain ⟨v, here, at₁⟩ := getElem?_of_placeAt (inside first)
  obtain ⟨u, there, at₂⟩ := getElem?_of_placeAt (inside second)
  by_cases differ : i = j
  · exact differ
  · have both := add_le_total (atPlaces Place.holdsMutex) differ here there
    rw [atPlaces_apply, atPlaces_apply, at₁, at₂, first, second] at both
    exact absurd (both.trans h.one) (by decide)

theorem MutexAccount.writing (h : MutexAccount c) (waits : placeAt c i = .writing) :
    c.shared.writerWaiting = true ∧ c.shared.mutex = true := by
  obtain ⟨v, here, place⟩ := getElem?_of_placeAt (by rw [waits]; decide)
  have flag := le_total_of_getElem? (atPlaces Place.signals) here
  have mutex := le_total_of_getElem? (atPlaces Place.holdsMutex) here
  rw [h.flag, atPlaces_apply, place, waits] at flag
  rw [h.mutex, atPlaces_apply, place, waits] at mutex
  have raised {b : Bool} (one : 1 ≤ b.toNat) : b = true := by
    cases b with
    | true => rfl
    | false => exact absurd one (by decide)
  exact ⟨raised flag, raised mutex⟩

theorem MutexAccount.raised (h : MutexAccount c) (flag : c.shared.writerWaiting = true) :
    c.shared.mutex = true ∧ ∃ i, (placeAt c i = .writing ∨ placeAt c i = .clearing) ∧
      ∀ j, (placeAt c j).holdsMutex = 1 → j = i := by
  have one : 0 < total (atPlaces Place.signals) c.threads := by
    rw [h.flag, flag]
    decide
  obtain ⟨i, v, here, signals⟩ := exists_of_total_pos one
  have between : v.place = .writing ∨ v.place = .clearing := by
    rw [atPlaces_apply] at signals
    cases place : v.place <;> simp_all [Place.signals]
  have holds : v.place.holdsMutex = 1 := by
    rcases between with place | place <;> rw [place] <;> rfl
  have held : 1 ≤ c.shared.mutex.toNat := by
    have own := le_total_of_getElem? (atPlaces Place.holdsMutex) here
    rwa [h.mutex, atPlaces_apply, holds] at own
  rw [← placeAt_of_getElem? here] at between holds
  refine ⟨?_, i, between, fun j other => h.unique other holds⟩
  cases mutex : c.shared.mutex with
  | true => rfl
  | false =>
    rw [mutex] at held
    exact absurd held (by decide)

end PlaceAt

/-! ## Readers and a waiting writer -/

/-- Client `i` has set the flag at `p` and not obtained the write lock since. -/
def WaitsSince (log : List (Nat × RWEvent)) (i p : Nat) : Prop :=
  log[p]? = some (i, .set) ∧ ∀ w, p < w → log[w]? ≠ some (i, .obtainedWrite)

/-- Client `j` has tested the flag at `q` and not obtained a read lock since. -/
def ReadsSince (log : List (Nat × RWEvent)) (j q : Nat) : Prop :=
  (∃ b, log[q]? = some (j, .tested b)) ∧ ∀ r, q < r → log[r]? ≠ some (j, .obtainedRead)

/-- An `AcquireRead` that tests the flag after a writer has set it obtains the read lock after
that writer has obtained the write lock. -/
def NoOvertaking (log : List (Nat × RWEvent)) : Prop :=
  ∀ (i j p q r : Nat) (b : Bool), p < q → q < r → log[p]? = some (i, RWEvent.set) →
    log[q]? = some (j, .tested b) → log[r]? = some (j, .obtainedRead) →
    ∃ w, p < w ∧ w < r ∧ log[w]? = some (i, .obtainedWrite)

/-- The writer that waits stands before the rwlock, and the readers after it before the mutex. -/
structure Barrier (c : Config RWMutex Client RWEvent) : Prop where
  writer : ∀ {i p}, WaitsSince c.log i p → placeAt c i = .writing
  reader : ∀ {i j p q}, WaitsSince c.log i p → p < q → ReadsSince c.log j q →
    placeAt c j = .locking
  order : NoOvertaking c.log

theorem getElem?_append_cases {α : Type} {xs ys : List α} {n : Nat} {x : α}
    (h : (xs ++ ys)[n]? = some x) : n < xs.length ∧ xs[n]? = some x ∨ xs.length ≤ n ∧ x ∈ ys := by
  by_cases old : n < xs.length
  · exact .inl ⟨old, by rwa [List.getElem?_append_left old] at h⟩
  · rw [List.getElem?_append_right (Nat.le_of_not_lt old)] at h
    exact .inr ⟨Nat.le_of_not_lt old, List.mem_of_getElem? h⟩

section Moves

variable {c : Config RWMutex Client RWEvent} {k : Nat} {v : Client} {o : RWEffect Client}

theorem WaitsSince.of_append {log ext : List (Nat × RWEvent)} {i p : Nat}
    (h : WaitsSince (log ++ ext) i p) :
    (p < log.length ∧ WaitsSince log i p ∨ log.length ≤ p ∧ (i, RWEvent.set) ∈ ext) ∧
      (p < log.length → (i, RWEvent.obtainedWrite) ∉ ext) := by
  obtain ⟨raised, since⟩ := h
  constructor
  · rcases getElem?_append_cases raised with ⟨old, raised⟩ | new
    · refine .inl ⟨old, raised, fun w later obtained => ?_⟩
      have bound := (List.getElem?_eq_some_iff.mp obtained).1
      exact since w later (by rwa [List.getElem?_append_left bound])
    · exact .inr new
  · intro old mem
    obtain ⟨n, there⟩ := List.mem_iff_getElem?.mp mem
    refine since (log.length + n) (by omega) ?_
    rw [List.getElem?_append_right (Nat.le_add_right _ _), Nat.add_sub_cancel_left, there]

theorem ReadsSince.of_append {log ext : List (Nat × RWEvent)} {j q : Nat}
    (h : ReadsSince (log ++ ext) j q) :
    q < log.length ∧ ReadsSince log j q ∨ log.length ≤ q ∧ ∃ b, (j, RWEvent.tested b) ∈ ext := by
  obtain ⟨⟨b, tested⟩, since⟩ := h
  rcases getElem?_append_cases tested with ⟨old, tested⟩ | ⟨late, new⟩
  · refine .inl ⟨old, ⟨b, tested⟩, fun r later obtained => ?_⟩
    have bound := (List.getElem?_eq_some_iff.mp obtained).1
    exact since r later (by rwa [List.getElem?_append_left bound])
  · exact .inr ⟨late, b, new⟩

theorem barrier_writer (h : Barrier c) (here : c.threads[k]? = some v)
    (step : RWStep c.shared v o) {i p : Nat}
    (waits : WaitsSince (c.log ++ o.events.map (Prod.mk k)) i p) :
    placeAt ⟨o.shared, c.threads.set k o.self, c.log ++ o.events.map (Prod.mk k)⟩ i = .writing := by
  rw [placeAt_moves here]
  obtain ⟨⟨old, waits⟩ | ⟨_, new⟩, silent⟩ := waits.of_append
  · have before := h.writer waits
    by_cases own : i = k
    · subst own
      rw [placeAt_of_getElem? here] at before
      exact absurd (List.mem_map_of_mem (step.of_writing before)) (silent old)
    · rw [if_neg own, before]
  · obtain ⟨e, event, same⟩ := List.mem_map.mp new
    obtain ⟨rfl, rfl⟩ := Prod.mk.inj same
    rw [if_pos rfl, step.of_set event]

theorem barrier_reader (h : Barrier c) (account : MutexAccount c) (here : c.threads[k]? = some v)
    (step : RWStep c.shared v o) {i j p q : Nat}
    (waits : WaitsSince (c.log ++ o.events.map (Prod.mk k)) i p) (after : p < q)
    (reads : ReadsSince (c.log ++ o.events.map (Prod.mk k)) j q) :
    placeAt ⟨o.shared, c.threads.set k o.self, c.log ++ o.events.map (Prod.mk k)⟩ j =
      .locking := by
  rw [placeAt_moves here]
  rcases reads.of_append with ⟨old, reads⟩ | ⟨late, b, tested⟩
  · obtain ⟨⟨_, waits⟩ | ⟨late, _⟩, _⟩ := waits.of_append
    · have before := h.reader waits after reads
      have held := (account.writing (h.writer waits)).2
      by_cases own : j = k
      · subst own
        rw [placeAt_of_getElem? here] at before
        exact absurd held (by rw [step.of_locking before]; decide)
      · rw [if_neg own, before]
    · exact absurd (after.trans old) (Nat.not_lt.mpr late)
  · obtain ⟨e, event, same⟩ := List.mem_map.mp tested
    obtain ⟨rfl, rfl⟩ := Prod.mk.inj same
    obtain ⟨alone, locks⟩ := step.of_tested event
    rw [if_pos rfl]
    rcases waits.of_append.1 with ⟨_, waits⟩ | ⟨_, new⟩
    · exact locks (account.writing (h.writer waits)).1
    · rw [alone] at new
      simp at new

theorem barrier_order (h : Barrier c) (here : c.threads[k]? = some v)
    (step : RWStep c.shared v o) : NoOvertaking (c.log ++ o.events.map (Prod.mk k)) := by
  intro i j p q r b before after raised tested obtained
  have lift {w : Nat} {x : Nat × RWEvent} (old : c.log[w]? = some x) :
      (c.log ++ o.events.map (Prod.mk k))[w]? = some x := by
    rwa [List.getElem?_append_left (List.getElem?_eq_some_iff.mp old).1]
  rcases getElem?_append_cases obtained with ⟨bound, old⟩ | ⟨late, new⟩
  · rw [List.getElem?_append_left (after.trans bound)] at tested
    rw [List.getElem?_append_left (before.trans (after.trans bound))] at raised
    obtain ⟨w, first, second, wrote⟩ := h.order i j p q r b before after raised tested old
    exact ⟨w, first, second, lift wrote⟩
  · obtain ⟨e, event, same⟩ := List.mem_map.mp new
    obtain ⟨rfl, rfl⟩ := Prod.mk.inj same
    obtain ⟨reading, alone⟩ := step.of_obtainedRead event
    rw [alone] at tested raised
    rcases getElem?_append_cases tested with ⟨bound, tested⟩ | ⟨_, mem⟩
    swap
    · simp at mem
    rw [List.getElem?_append_left (before.trans bound)] at raised
    by_cases wrote : ∃ w, p < w ∧ c.log[w]? = some (i, .obtainedWrite)
    · obtain ⟨w, first, wrote⟩ := wrote
      exact ⟨w, first, (List.getElem?_eq_some_iff.mp wrote).1.trans_le late, lift wrote⟩
    · by_cases read : ∃ r', q < r' ∧ c.log[r']? = some (k, .obtainedRead)
      · obtain ⟨r', later, read⟩ := read
        obtain ⟨w, first, second, wrote⟩ := h.order i k p q r' b before later raised tested read
        have earlier := (List.getElem?_eq_some_iff.mp read).1
        exact ⟨w, first, second.trans (earlier.trans_le late), lift wrote⟩
      · -- the reader would still stand before the mutex
        have waits : WaitsSince c.log i p := ⟨raised, fun w first at_w => wrote ⟨w, first, at_w⟩⟩
        have reads : ReadsSince c.log k q :=
          ⟨⟨b, tested⟩, fun r' later at_r => read ⟨r', later, at_r⟩⟩
        have locking := h.reader waits before reads
        rw [placeAt_of_getElem? here, reading] at locking
        cases locking

end Moves

theorem barrier_step {c c' : Config RWMutex Client RWEvent} (h : MutexAccount c ∧ Barrier c)
    (change : RWChange c c') : MutexAccount c' ∧ Barrier c' := by
  refine ⟨mutexAccount_step h.1 change, ?_⟩
  obtain ⟨account, barrier⟩ := h
  cases change with
  | moves here step =>
    exact
      { writer := barrier_writer barrier here step
        reader := barrier_reader barrier account here step
        order := barrier_order barrier here step }

theorem barrier_start (clients : Nat) : Barrier (start clients) where
  writer waits := by cases waits.1
  reader waits := by cases waits.1
  order _ _ _ _ _ _ _ _ raised := by cases raised

/-- The flag is true only while one writer, between setting and clearing it, holds the mutex, and
a reader that tests the flag after a writer has set it does not get the lock before the writer. -/
theorem waiting_writer_first (clients : Nat) {c : Config RWMutex Client RWEvent}
    (h : readersAndWriters.Reach (start clients) c) :
    NoOvertaking c.log ∧
      (c.shared.writerWaiting = true → c.shared.mutex = true ∧
        ∃ i, (placeAt c i = .writing ∨ placeAt c i = .clearing) ∧
          ∀ j, (placeAt c j).holdsMutex = 1 → j = i) := by
  have both : MutexAccount c ∧ Barrier c :=
    h.invariant ⟨mutexAccount_start clients, barrier_start clients⟩ fun inv _ step =>
      barrier_step inv (rwChange_of_step step)
  exact ⟨both.2.order, both.1.raised⟩

/-- Client 2 tests the flag while client 1 waits for client 0 to release, and reads after it. -/
theorem waiting_writer_first_threeClients :
    ∃ c, readersAndWriters.Reach (start 3) c ∧
      c.log = [(0, .tested false), (0, .obtainedRead), (1, .set), (2, .tested true), (0, .released),
        (1, .obtainedWrite), (1, .cleared), (1, .released), (2, .obtainedRead)] ∧
      NoOvertaking c.log ∧
      (c.shared.writerWaiting = true → c.shared.mutex = true ∧
        ∃ i, (placeAt c i = .writing ∨ placeAt c i = .clearing) ∧
          ∀ j, (placeAt c j).holdsMutex = 1 → j = i) := by
  obtain ⟨c, run, log⟩ := readersAndWriters.exists_reach (start 3)
    (fun c => c.log = [(0, .tested false), (0, .obtainedRead), (1, .set), (2, .tested true),
      (0, .released), (1, .obtainedWrite), (1, .cleared), (1, .released), (2, .obtainedRead)])
    [.run 0 (.call .acquireRead) [], .run 0 .proceed [], .run 1 (.call .acquireWrite) [],
      .run 1 .proceed [], .run 1 .proceed [], .run 2 (.call .acquireRead) [],
      .run 0 (.call .release) [], .run 1 .proceed [], .run 1 .proceed [], .run 1 .proceed [],
      .run 1 (.call .release) [], .run 2 .proceed [], .run 2 .proceed [], .run 2 .proceed []]
    (by decide)
  exact ⟨c, run, log, waiting_writer_first 3 run⟩

end Threads.NoStarve
