import Mathlib.Data.Nat.Find
import Threads.Concurrency.Progress
import Threads.Locks.NoStarve

/-!
# Exclusion and progress of the rwlock

Writers exclude everybody else, in every run. As long as nobody enters an acquisition with a
lock in its hands, the clients never stand in each other's way for ever, and a writer that
waits obtains the lock.
-/

namespace Threads.NoStarve

open Concurrency

/-- The two fields that stand for the rwlock. -/
def RWMutex.lock (s : RWMutex) : Nat × Bool := (s.readers, s.writer)

/-- The locks of one client. -/
def Client.held (v : Client) : Nat × Bool := (v.reads, v.writes)

/-- How many locks that is. -/
def Client.holds (v : Client) : Nat := v.reads + v.writes.toNat

def Client.writers (v : Client) : Nat := v.writes.toNat

/-- A client runs one block. -/
inductive Fires (c : Config RWMutex Client RWEvent) :
    Move RWAct → Config RWMutex Client RWEvent → Prop
  | run {k a cs v o} (here : c.threads[k]? = some v) (fires : rwBlock c.shared v a = some o) :
      Fires c (.run k a cs) ⟨o.shared, c.threads.set k o.self, c.log ++ o.events.map (Prod.mk k)⟩

theorem fires_of_step {c c' : Config RWMutex Client RWEvent} {mv : Move RWAct}
    (h : readersAndWriters.Step c mv c') : Fires c mv c' := by
  cases h with
  | spurious here waits => exact absurd rfl waits
  | @run k a cs v o ts here fires delivered =>
    obtain ⟨silent, childless⟩ := (rwStep_of_block fires).quiet
    rw [silent] at delivered
    obtain rfl := Option.some.inj delivered
    rw [childless, List.append_nil]
    exact .run here fires

/-! ## Writers exclude the others -/

/-- What a block does to the rwlock: nothing, one grant or one release. -/
inductive Grant (s : RWMutex) (v : Client) (o : RWEffect Client) : Prop
  | keeps (lock : o.shared.lock = s.lock) (held : o.self.held = v.held)
  | read (readable : s.readable = true) (lock : o.shared.lock = (s.readers + 1, s.writer))
      (held : o.self.held = (v.reads + 1, v.writes))
  | write (writable : s.writable = true) (lock : o.shared.lock = (s.readers, true))
      (held : o.self.held = (v.reads, true))
  | endsWrite (writes : v.writes = true) (lock : o.shared.lock = (s.readers, false))
      (held : o.self.held = (v.reads, false))
  | endsRead (reads : 0 < v.reads) (lock : o.shared.lock = (s.readers - 1, s.writer))
      (held : o.self.held = (v.reads - 1, v.writes))

section Block

variable {s : RWMutex} {v : Client} {o : RWEffect Client}

theorem grant_of_proceed (h : proceedBlock s v = some o) : Grant s v o := by
  unfold proceedBlock at h
  cases place : v.place <;> simp only [place] at h
  case outside => cases h
  case unlocking | setting | clearing | writeUnlocking =>
    obtain rfl := Option.some.inj h
    exact .keeps rfl rfl
  case locking | writeLocking =>
    split at h
    · cases h
    · obtain rfl := Option.some.inj h
      exact .keeps rfl rfl
  case reading =>
    split at h
    · obtain rfl := Option.some.inj h
      exact .read ‹_› rfl rfl
    · cases h
  case writing =>
    split at h
    · obtain rfl := Option.some.inj h
      exact .write ‹_› rfl rfl
    · cases h

theorem grant_of_release (h : releaseBlock s v = some o) : Grant s v o := by
  unfold releaseBlock at h
  split at h
  · obtain rfl := Option.some.inj h
    exact .endsWrite ‹_› rfl rfl
  · split at h
    · obtain rfl := Option.some.inj h
      exact .endsRead ‹_› rfl rfl
    · cases h

theorem grant_of_call {op : Operation} (h : callBlock s v op = some o) : Grant s v o := by
  cases op with
  | acquireRead =>
    obtain rfl := Option.some.inj h
    exact .keeps rfl rfl
  | acquireWrite =>
    obtain rfl := Option.some.inj h
    unfold acquireWriteBlock
    split
    · exact .write ‹_› rfl rfl
    · exact .keeps rfl rfl
  | attemptRead =>
    obtain rfl := Option.some.inj h
    unfold attemptReadBlock
    split
    · exact .read ‹_› rfl rfl
    · exact .keeps rfl rfl
  | attemptWrite =>
    obtain rfl := Option.some.inj h
    unfold attemptWriteBlock
    split
    · exact .write ‹_› rfl rfl
    · exact .keeps rfl rfl
  | release => exact grant_of_release h

theorem grant_of_block {a : RWAct} (h : rwBlock s v a = some o) : Grant s v o := by
  cases a with
  | proceed => exact grant_of_proceed h
  | call op =>
    simp only [rwBlock] at h
    split at h
    · exact grant_of_call h
    · cases h

end Block

/-- The rwlock counts the locks of the clients, and does not mix the two kinds. -/
structure LockAccount (c : Config RWMutex Client RWEvent) : Prop where
  readers : total Client.reads c.threads = c.shared.readers
  writer : total Client.writers c.threads = c.shared.writer.toNat
  apart : c.shared.writer = true → c.shared.readers = 0

theorem lockAccount_start (clients : Nat) : LockAccount (start clients) where
  readers := total_eq_zero.mpr fun v mem => by rw [List.eq_of_mem_replicate mem]
  writer := total_eq_zero.mpr fun v mem => by rw [List.eq_of_mem_replicate mem]; rfl
  apart raised := by cases raised

theorem writable_iff {s : RWMutex} : s.writable = true ↔ s.writer = false ∧ s.readers = 0 := by
  simp [RWMutex.writable]

/-- The counts move together, and a lock of one kind is only granted where there is none of the
other. -/
theorem Grant.account {s : RWMutex} {v : Client} {o : RWEffect Client} (h : Grant s v o)
    (reading : v.reads ≤ s.readers) (writing : v.writers ≤ s.writer.toNat)
    (apart : s.writer = true → s.readers = 0) :
    o.shared.readers + v.reads = s.readers + o.self.reads ∧
      o.shared.writer.toNat + v.writers = s.writer.toNat + o.self.writers ∧
      (o.shared.writer = true → o.shared.readers = 0) := by
  unfold Client.writers at writing ⊢
  cases h with
  | keeps lock held =>
    obtain ⟨readers, writer⟩ := Prod.mk.inj lock
    obtain ⟨reads, writes⟩ := Prod.mk.inj held
    rw [readers, writer, reads, writes]
    exact ⟨rfl, rfl, apart⟩
  | read readable lock held =>
    obtain ⟨readers, writer⟩ := Prod.mk.inj lock
    obtain ⟨reads, writes⟩ := Prod.mk.inj held
    rw [readers, writer, reads, writes]
    refine ⟨Nat.add_right_comm _ _ _, rfl, fun raised => ?_⟩
    rw [RWMutex.readable, raised] at readable
    cases readable
  | write writable lock held =>
    obtain ⟨readers, writer⟩ := Prod.mk.inj lock
    obtain ⟨reads, writes⟩ := Prod.mk.inj held
    obtain ⟨free, none⟩ := writable_iff.mp writable
    rw [free] at writing ⊢
    rw [readers, writer, reads, writes, Nat.le_zero.mp writing]
    exact ⟨rfl, rfl, fun _ => none⟩
  | endsWrite mine lock held =>
    obtain ⟨readers, writer⟩ := Prod.mk.inj lock
    obtain ⟨reads, writes⟩ := Prod.mk.inj held
    have one := Bool.toNat_le s.writer
    rw [mine] at writing
    rw [readers, writer, reads, writes, mine]
    exact ⟨rfl, Nat.le_antisymm writing one, fun raised => absurd raised Bool.false_ne_true⟩
  | endsRead some lock held =>
    obtain ⟨readers, writer⟩ := Prod.mk.inj lock
    obtain ⟨reads, writes⟩ := Prod.mk.inj held
    rw [readers, writer, reads, writes]
    refine ⟨by omega, rfl, fun raised => ?_⟩
    rw [apart raised]

theorem lockAccount_step {c c' : Config RWMutex Client RWEvent} {mv : Move RWAct}
    (h : LockAccount c) (fires : Fires c mv c') : LockAccount c' := by
  cases fires with
  | @run k a cs v o here fires =>
    have reading := le_total_of_getElem? Client.reads here
    have writing := le_total_of_getElem? Client.writers here
    rw [h.readers] at reading
    rw [h.writer] at writing
    obtain ⟨moved, passed, apart⟩ := (grant_of_block fires).account reading writing h.apart
    have readers := total_set Client.reads here o.self
    have writers := total_set Client.writers here o.self
    rw [h.readers] at readers
    rw [h.writer] at writers
    constructor
    · show total Client.reads (c.threads.set k o.self) = o.shared.readers
      omega
    · show total Client.writers (c.threads.set k o.self) = o.shared.writer.toNat
      omega
    · exact apart

theorem lockAccount_reach {clients : Nat} {c : Config RWMutex Client RWEvent}
    (h : readersAndWriters.Reach (start clients) c) : LockAccount c :=
  h.invariant (lockAccount_start clients) fun inv _ step =>
    lockAccount_step inv (fires_of_step step)

/-- Two clients, one of them with the write lock, are one client, which has no read lock; and the
rwlock knows of each lock. -/
theorem writer_alone (clients : Nat) {c : Config RWMutex Client RWEvent}
    (h : readersAndWriters.Reach (start clients) c) :
    total Client.reads c.threads = c.shared.readers ∧
      total Client.writers c.threads = c.shared.writer.toNat ∧
      ∀ (i j : Nat) (v w : Client), c.threads[i]? = some v → c.threads[j]? = some w →
        v.writes = true → 0 < w.holds → i = j ∧ w.reads = 0 := by
  have account := lockAccount_reach h
  refine ⟨account.readers, account.writer, fun i j v w here there writes holds => ?_⟩
  have own := le_total_of_getElem? Client.writers here
  have reading := le_total_of_getElem? Client.reads there
  have one := Bool.toNat_le c.shared.writer
  have mine : v.writers = 1 := by rw [Client.writers, writes]; rfl
  rw [account.writer, mine] at own
  have raised : c.shared.writer = true := by
    cases taken : c.shared.writer with
    | true => rfl
    | false =>
      rw [taken] at own
      exact absurd own (by decide)
  rw [account.readers, account.apart raised] at reading
  have none : w.reads = 0 := Nat.le_zero.mp reading
  refine ⟨?_, none⟩
  by_contra differ
  have both := add_le_total Client.writers differ here there
  have second : w.holds = w.writers := by rw [Client.holds, none, Nat.zero_add]; rfl
  rw [account.writer, mine] at both
  omega

theorem writer_alone_twoClients :
    ∃ c, readersAndWriters.Reach (start 2) c ∧ c.shared.writer = true ∧
      total Client.reads c.threads = c.shared.readers ∧
      total Client.writers c.threads = c.shared.writer.toNat ∧
      ∀ (i j : Nat) (v w : Client), c.threads[i]? = some v → c.threads[j]? = some w →
        v.writes = true → 0 < w.holds → i = j ∧ w.reads = 0 := by
  obtain ⟨c, run, taken⟩ := readersAndWriters.exists_reach (start 2)
    (fun c => c.shared.writer = true)
    [.run 0 (.call .acquireWrite) [], .run 1 (.call .attemptRead) []] (by decide)
  exact ⟨c, run, taken, writer_alone 2 run⟩

/-! ## What is begun comes to an end -/

/-- The clients finish what they have called, and release what they hold. -/
def Serves (_ : Config RWMutex Client RWEvent) : Move RWAct → Prop
  | .run _ .proceed _ => True
  | .run _ (.call .release) _ => True
  | _ => False

theorem serves_cases {c : Config RWMutex Client RWEvent} {mv : Move RWAct} (h : Serves c mv) :
    ∃ k cs, mv = .run k .proceed cs ∨ mv = .run k (.call .release) cs := by
  match mv, h with
  | .run k .proceed cs, _ => exact ⟨k, cs, .inl rfl⟩
  | .run k (.call .release) cs, _ => exact ⟨k, cs, .inr rfl⟩

/-- Nobody calls `AcquireRead` or `AcquireWrite` while it holds a lock. -/
def EmptyHanded (c : Config RWMutex Client RWEvent) : Move RWAct → Prop
  | .run k (.call .acquireRead) _ => ∀ v ∈ c.threads[k]?, v.holds = 0
  | .run k (.call .acquireWrite) _ => ∀ v ∈ c.threads[k]?, v.holds = 0
  | _ => True

instance (c : Config RWMutex Client RWEvent) : DecidablePred (EmptyHanded c)
  | .run _ .proceed _ => isTrue trivial
  | .run k (.call .acquireRead) _ =>
    inferInstanceAs (Decidable (∀ v ∈ c.threads[k]?, v.holds = 0))
  | .run k (.call .acquireWrite) _ =>
    inferInstanceAs (Decidable (∀ v ∈ c.threads[k]?, v.holds = 0))
  | .run _ (.call .attemptRead) _ => isTrue trivial
  | .run _ (.call .attemptWrite) _ => isTrue trivial
  | .run _ (.call .release) _ => isTrue trivial
  | .spurious _ => isTrue trivial

/-- Everybody is outside, and every lock is free. -/
structure AllFree (c : Config RWMutex Client RWEvent) : Prop where
  outside : ∀ v ∈ c.threads, v.place = .outside ∧ v.holds = 0
  free : c.shared = {}

/-- How far it is to the end of the operation, a lock that is obtained counting one. -/
def Place.effort : Place → Nat
  | .outside => 0
  | .writeUnlocking => 1
  | .clearing | .reading => 2
  | .unlocking => 3
  | .writing | .locking => 4
  | .setting => 5
  | .writeLocking => 6

def Client.effort (v : Client) : Nat := v.place.effort + v.holds

theorem effort_lowers {c c' : Config RWMutex Client RWEvent} {mv : Move RWAct} {f : Client → Nat}
    (fires : Fires c mv c')
    (less : ∀ {k a cs v o}, mv = .run k a cs → c.threads[k]? = some v →
      rwBlock c.shared v a = some o → f o.self < f v) : total f c'.threads < total f c.threads := by
  cases fires with
  | @run k a cs v o here fires =>
    have changed := total_set f here o.self
    have lower := less rfl here fires
    dsimp only
    omega

section Block

variable {s : RWMutex} {v : Client} {o : RWEffect Client}

theorem release_holds (h : releaseBlock s v = some o) :
    o.self.place = v.place ∧ o.self.holds < v.holds := by
  unfold releaseBlock at h
  split at h
  · rename_i writes
    obtain rfl := Option.some.inj h
    simp [Client.holds, writes]
  · split at h
    · obtain rfl := Option.some.inj h
      refine ⟨rfl, ?_⟩
      simp only [Client.holds]
      omega
    · cases h

theorem released (h : rwBlock s v (.call .release) = some o) :
    v.place = .outside ∧ releaseBlock s v = some o := by
  simp only [rwBlock] at h
  split at h
  · exact ⟨‹_›, h⟩
  · cases h

theorem proceed_effort (h : proceedBlock s v = some o) : o.self.effort < v.effort := by
  have one := Bool.toNat_le v.writes
  unfold proceedBlock at h
  cases place : v.place <;> simp only [place] at h
  case outside => cases h
  case unlocking | setting | clearing | writeUnlocking =>
    obtain rfl := Option.some.inj h
    simp [Client.effort, Client.holds, place, Place.effort]
  case locking | writeLocking =>
    split at h
    · cases h
    · obtain rfl := Option.some.inj h
      simp [Client.effort, Client.holds, place, Place.effort]
  case reading | writing =>
    split at h
    · obtain rfl := Option.some.inj h
      simp only [Client.effort, Client.holds, place, Place.effort, Bool.toNat_true]
      omega
    · cases h

end Block

theorem acc_serves (c : Config RWMutex Client RWEvent) :
    Acc (readersAndWriters.Follows Serves) c := by
  refine Program.acc_of_rank Nat.lt_wfRel.wf (fun _ => True)
    (fun c => total Client.effort c.threads) ?_ trivial
  intro c mv c' _ ok step
  refine ⟨trivial, effort_lowers (fires_of_step step) ?_⟩
  rintro k a cs v o rfl _ fires
  obtain ⟨_, _, same | same⟩ := serves_cases ok <;> obtain ⟨rfl, rfl, rfl⟩ := Move.run.inj same
  · exact proceed_effort fires
  · obtain ⟨_, fires⟩ := released fires
    obtain ⟨place, fewer⟩ := release_holds fires
    unfold Client.effort
    rw [place]
    exact Nat.add_lt_add_left fewer _

/-! ## Nobody is stuck -/

/-- On the way to a lock. -/
def Place.seeks : Place → Bool
  | .locking | .unlocking | .reading | .writeLocking | .setting | .writing => true
  | _ => false

/-- A client on the way to a lock has none. -/
def Client.unladen (v : Client) : Prop := v.place.seeks = true → v.holds = 0

theorem unladen_of_block {s : RWMutex} {v : Client} {a : RWAct} {o : RWEffect Client}
    (h : rwBlock s v a = some o) (before : v.unladen)
    (empty : a = .call .acquireRead ∨ a = .call .acquireWrite → v.holds = 0) : o.self.unladen := by
  have outside {w : Client} (out : w.place = .outside) : w.unladen := fun seeks => by
    rw [out] at seeks
    cases seeks
  cases a with
  | proceed =>
    intro seeks
    simp only [rwBlock, proceedBlock] at h
    cases place : v.place <;> simp only [place] at h
    case outside => cases h
    case unlocking | setting =>
      obtain rfl := Option.some.inj h
      exact before (by rw [place]; rfl)
    case clearing | writeUnlocking =>
      obtain rfl := Option.some.inj h
      cases seeks
    case locking | writeLocking =>
      split at h
      · cases h
      · obtain rfl := Option.some.inj h
        exact before (by rw [place]; rfl)
    case reading | writing =>
      split at h
      · obtain rfl := Option.some.inj h
        cases seeks
      · cases h
  | call op =>
    simp only [rwBlock] at h
    split at h
    swap
    · cases h
    rename_i place
    cases op with
    | acquireRead =>
      obtain rfl := Option.some.inj h
      exact fun _ => empty (.inl rfl)
    | acquireWrite =>
      obtain rfl := Option.some.inj h
      unfold acquireWriteBlock
      split
      · exact outside place
      · exact fun _ => empty (.inr rfl)
    | attemptRead =>
      obtain rfl := Option.some.inj h
      unfold attemptReadBlock
      split <;> exact outside place
    | attemptWrite =>
      obtain rfl := Option.some.inj h
      unfold attemptWriteBlock
      split <;> exact outside place
    | release => exact outside ((release_holds h).1.trans place)

/-- Whoever waits, waits with empty hands. -/
def Unladen (c : Config RWMutex Client RWEvent) : Prop := ∀ v ∈ c.threads, v.unladen

theorem unladen_start (clients : Nat) : Unladen (start clients) := by
  intro v mem _
  rw [List.eq_of_mem_replicate mem]
  rfl

theorem unladen_step {c c' : Config RWMutex Client RWEvent} {mv : Move RWAct} (h : Unladen c)
    (ok : EmptyHanded c mv) (fires : Fires c mv c') : Unladen c' := by
  cases fires with
  | @run k a cs v o here fires =>
    intro w mem
    rcases List.mem_or_eq_of_mem_set mem with old | rfl
    · exact h w old
    · apply unladen_of_block fires (h v (List.mem_of_getElem? here))
      rintro (rfl | rfl) <;> exact ok v here

theorem unladen_run {clients : Nat} {c : Config RWMutex Client RWEvent}
    (h : readersAndWriters.Run EmptyHanded (start clients) c) : Unladen c :=
  h.invariant (unladen_start clients) fun inv ok step => unladen_step inv ok (fires_of_step step)

/-- What a client that cannot go on waits for. -/
inductive Waits (s : RWMutex) (v : Client) : Prop
  | nothing (place : v.place = .outside)
  | mutex (place : v.place = .locking ∨ v.place = .writeLocking) (taken : s.mutex = true)
  | read (place : v.place = .reading) (taken : s.readable = false)
  | write (place : v.place = .writing) (taken : s.writable = false)

theorem waits_of_blocked {s : RWMutex} {v : Client} (h : proceedBlock s v = none) : Waits s v := by
  unfold proceedBlock at h
  cases place : v.place <;> simp only [place] at h
  case outside => exact .nothing place
  case unlocking | setting | clearing | writeUnlocking => cases h
  case locking =>
    split at h
    · exact .mutex (.inl place) ‹_›
    · cases h
  case writeLocking =>
    split at h
    · exact .mutex (.inr place) ‹_›
    · cases h
  case reading =>
    split at h
    · cases h
    · exact .read place (Bool.eq_false_iff.mpr ‹_›)
  case writing =>
    split at h
    · cases h
    · exact .write place (Bool.eq_false_iff.mpr ‹_›)

theorem holds_of_unreleased {s : RWMutex} {v : Client} (h : releaseBlock s v = none) :
    v.holds = 0 := by
  unfold releaseBlock at h
  split at h
  · cases h
  · split at h
    · cases h
    · rename_i writes reads
      simp [Client.holds, writes, Nat.le_zero.mp (Nat.not_lt.mp reads)]

section Rest

variable {c : Config RWMutex Client RWEvent}

theorem holds_at_rest (unladen : Unladen c) (rests : readersAndWriters.Resting Serves c)
    {k : Nat} {v : Client} (here : c.threads[k]? = some v) : v.holds = 0 := by
  have seeks := unladen v (List.mem_of_getElem? here)
  cases waits_of_blocked (rests.blocked here (a := .proceed) fun _ => trivial) with
  | nothing place =>
    have unreleased := rests.blocked here (a := .call .release) fun _ => trivial
    rw [show readersAndWriters.block c.shared v (.call .release) = releaseBlock c.shared v from
      if_pos place] at unreleased
    exact holds_of_unreleased unreleased
  | mutex place =>
    refine seeks ?_
    rcases place with place | place <;> rw [place] <;> rfl
  | read place => exact seeks (by rw [place]; rfl)
  | write place => exact seeks (by rw [place]; rfl)

/-- At rest the rwlock is free. -/
theorem lock_at_rest (locks : LockAccount c) (unladen : Unladen c)
    (rests : readersAndWriters.Resting Serves c) :
    c.shared.writer = false ∧ c.shared.readers = 0 := by
  have none {f : Client → Nat} (le : ∀ v, f v ≤ v.holds) : total f c.threads = 0 :=
    total_eq_zero.mpr fun v mem => by
      obtain ⟨k, here⟩ := List.mem_iff_getElem?.mp mem
      have zero := holds_at_rest unladen rests here
      exact Nat.le_zero.mp (zero ▸ le v)
  have readers := none (f := Client.reads) fun v => Nat.le_add_right _ _
  have writers := none (f := Client.writers) fun v => Nat.le_add_left _ _
  rw [locks.readers] at readers
  rw [locks.writer] at writers
  refine ⟨?_, readers⟩
  cases taken : c.shared.writer with
  | false => rfl
  | true =>
    rw [taken] at writers
    cases writers

theorem allFree_at_rest (mutexes : MutexAccount c) (locks : LockAccount c) (unladen : Unladen c)
    (rests : readersAndWriters.Resting Serves c) : AllFree c := by
  obtain ⟨writer, readers⟩ := lock_at_rest locks unladen rests
  have waits {v : Client} (mem : v ∈ c.threads) :
      v.place = .outside ∨
        (v.place = .locking ∨ v.place = .writeLocking) ∧ c.shared.mutex = true := by
    obtain ⟨k, here⟩ := List.mem_iff_getElem?.mp mem
    cases waits_of_blocked (rests.blocked here (a := .proceed) fun _ => trivial) with
    | nothing place => exact .inl place
    | mutex place taken => exact .inr ⟨place, taken⟩
    | read _ taken => simp [RWMutex.readable, writer] at taken
    | write _ taken => simp [RWMutex.writable, writer, readers] at taken
  have none {f : Place → Nat} (outside : f .outside = 0) (locking : f .locking = 0)
      (writeLocking : f .writeLocking = 0) : total (atPlaces f) c.threads = 0 :=
    total_eq_zero.mpr fun v mem => by
      rcases waits mem with place | ⟨place | place, _⟩ <;> rw [atPlaces_apply, place] <;> assumption
  have mutex := mutexes.mutex ▸ none rfl rfl rfl
  have flag := mutexes.flag ▸ none rfl rfl rfl
  have free : c.shared.mutex = false := by
    cases taken : c.shared.mutex with
    | false => rfl
    | true => simp [taken] at mutex
  have lowered : c.shared.writerWaiting = false := by
    cases raised : c.shared.writerWaiting with
    | false => rfl
    | true => simp [raised] at flag
  refine ⟨fun v mem => ?_, ?_⟩
  · obtain ⟨k, here⟩ := List.mem_iff_getElem?.mp mem
    refine ⟨?_, holds_at_rest unladen rests here⟩
    rcases waits mem with place | ⟨_, taken⟩
    · exact place
    · rw [free] at taken
      cases taken
  · have fields : c.shared = ⟨c.shared.readers, c.shared.writer, c.shared.mutex,
        c.shared.writerWaiting⟩ := rfl
    rw [fields, readers, writer, free, lowered]

end Rest

/-- Wherever a run has come to in which nobody enters an acquisition with a lock in its hands, the
clients can finish and release, until everybody is outside and every lock is free; they cannot
end up anywhere else, and cannot go on for ever. -/
theorem nobody_is_stuck (clients : Nat) {c : Config RWMutex Client RWEvent}
    (h : readersAndWriters.Run EmptyHanded (start clients) c) :
    (∃ c', readersAndWriters.Run Serves c c' ∧ AllFree c') ∧
      (readersAndWriters.Resting Serves c → AllFree c) ∧
      ∀ visits moves, visits 0 = c → readersAndWriters.Endless visits moves →
        ∃ n, ¬ Serves (visits n) (moves n) := by
  have free {d : Config RWMutex Client RWEvent}
      (run : readersAndWriters.Run EmptyHanded (start clients) d)
      (rests : readersAndWriters.Resting Serves d) : AllFree d :=
    allFree_at_rest (mutexAccount_reach run.reach) (lockAccount_reach run.reach) (unladen_run run)
      rests
  refine ⟨?_, free h, fun visits moves _ endless => ?_⟩
  · obtain ⟨c', run, rests⟩ := Program.exists_resting (acc_serves c)
    refine ⟨c', run, free (h.trans (run.imp fun serves => ?_)) rests⟩
    obtain ⟨k, cs, rfl | rfl⟩ := serves_cases serves <;> trivial
  · obtain ⟨n, _, stops⟩ := endless.interrupted (fun m => acc_serves (visits m)) 0
    exact ⟨n, stops⟩

/-- Client 0 reads, client 1 waits for the write lock and client 2 for the mutex. -/
def behindReader : List (Move RWAct) :=
  [.run 0 (.call .acquireRead) [], .run 0 .proceed [], .run 1 (.call .acquireWrite) [],
    .run 1 .proceed [], .run 1 .proceed [], .run 2 (.call .acquireRead) []]

theorem nobody_is_stuck_behindReader :
    ∃ c, placeAt c 1 = .writing ∧ placeAt c 2 = .locking ∧
      (∃ c', readersAndWriters.Run Serves c c' ∧ AllFree c') ∧
      (readersAndWriters.Resting Serves c → AllFree c) ∧
      ∀ visits moves, visits 0 = c → readersAndWriters.Endless visits moves →
        ∃ n, ¬ Serves (visits n) (moves n) := by
  obtain ⟨c, run, writing, locking⟩ := readersAndWriters.exists_run EmptyHanded (start 3)
    (fun c => placeAt c 1 = .writing ∧ placeAt c 2 = .locking) behindReader (by decide)
  exact ⟨c, writing, locking, nobody_is_stuck 3 run⟩

/-- A client that reads and calls `AcquireRead` again, while a writer waits, is stuck for ever, and
the writer with it. -/
theorem nested_read_stuck :
    ∃ c, readersAndWriters.Reach (start 2) c ∧ readersAndWriters.Resting Serves c ∧
      ¬ AllFree c := by
  obtain ⟨c, run, threads, shared⟩ := readersAndWriters.exists_reach (start 2)
    (fun c => c.threads = [⟨.locking, 1, false⟩, ⟨.writing, 0, false⟩] ∧
      c.shared = ⟨1, false, true, true⟩)
    [.run 0 (.call .acquireRead) [], .run 0 .proceed [], .run 1 (.call .acquireWrite) [],
      .run 1 .proceed [], .run 1 .proceed [], .run 0 (.call .acquireRead) []] (by decide)
  refine ⟨c, run, fun mv c' serves step => ?_, fun free => ?_⟩
  · have stuck : ∀ v ∈ c.threads, v.place ≠ .outside ∧ proceedBlock c.shared v = none := by
      rw [threads, shared]
      decide
    cases fires_of_step step with
    | @run k a cs v o here fires =>
      obtain ⟨inside, blocked⟩ := stuck v (List.mem_of_getElem? here)
      obtain ⟨_, _, same | same⟩ := serves_cases serves <;>
        obtain ⟨rfl, rfl, rfl⟩ := Move.run.inj same
      · exact Option.some_ne_none o (fires.symm.trans blocked)
      · exact inside (released fires).1
  · have taken := free.free
    rw [shared] at taken
    cases taken

/-! ## A waiting writer obtains the lock -/

/-- Nobody attempts to take the lock past the writer that waits: `AttemptRead` and `AttemptWrite`
are not called, and `AcquireWrite` only where its own attempt fails. -/
def Patient (c : Config RWMutex Client RWEvent) : Move RWAct → Prop
  | .run _ (.call .attemptRead) _ => False
  | .run _ (.call .attemptWrite) _ => False
  | .run _ (.call .acquireWrite) _ => c.shared.writable = false
  | _ => True

/-- What the others may still do before they stand behind the writer that waits. -/
def Place.patience : Place → Nat
  | .reading => 3
  | .writing => 2
  | .outside => 1
  | _ => 0

def Client.patience (v : Client) : Nat := v.place.patience + v.holds

/-- While a writer waits, each of the others runs into the mutex or the rwlock. -/
theorem patience_lowers {s : RWMutex} {v : Client} {a : RWAct} {o : RWEffect Client}
    (fires : rwBlock s v a = some o) (mutex : s.mutex = true) (flag : s.writerWaiting = true)
    (free : v.place.holdsMutex = 1 → v.place = .writing)
    (patient : a ≠ .call .attemptRead ∧ a ≠ .call .attemptWrite ∧
      (a = .call .acquireWrite → s.writable = false)) :
    o.self.patience < v.patience := by
  have one := Bool.toNat_le v.writes
  cases a with
  | proceed =>
    simp only [rwBlock, proceedBlock] at fires
    cases place : v.place <;> simp only [place] at fires free
    case outside => cases fires
    case unlocking | setting | clearing | writeUnlocking => cases free rfl
    case locking | writeLocking =>
      rw [if_pos mutex] at fires
      cases fires
    case reading | writing =>
      split at fires
      · obtain rfl := Option.some.inj fires
        simp only [Client.patience, Client.holds, place, Place.patience, Bool.toNat_true]
        omega
      · cases fires
  | call op =>
    have outside : v.place = .outside := by
      simp only [rwBlock] at fires
      split at fires
      · assumption
      · cases fires
    cases op with
    | attemptRead => exact absurd rfl patient.1
    | attemptWrite => exact absurd rfl patient.2.1
    | release =>
      obtain ⟨place, fewer⟩ := release_holds (released fires).2
      unfold Client.patience
      rw [place]
      exact Nat.add_lt_add_left fewer _
    | acquireRead =>
      rw [rwBlock, if_pos outside] at fires
      obtain rfl := Option.some.inj fires
      simp [acquireReadBlock, flag, Client.patience, Client.holds, outside, Place.patience]
    | acquireWrite =>
      rw [rwBlock, if_pos outside] at fires
      obtain rfl := Option.some.inj fires
      simp [acquireWriteBlock, patient.2.2 rfl, Client.patience, Client.holds, outside,
        Place.patience]

/-- Client `i` still waits for the write lock. -/
def WaitsFor (i : Nat) (c : Config RWMutex Client RWEvent) (mv : Move RWAct) : Prop :=
  placeAt c i = .writing ∧ Patient c mv

theorem acc_waitsFor (i : Nat) {c : Config RWMutex Client RWEvent} (account : MutexAccount c) :
    Acc (readersAndWriters.Follows (WaitsFor i)) c := by
  refine Program.acc_of_rank Nat.lt_wfRel.wf MutexAccount
    (fun c => total Client.patience c.threads) ?_ account
  intro c mv c' account ok step
  refine ⟨mutexAccount_step account (rwChange_of_step step),
    effort_lowers (fires_of_step step) ?_⟩
  rintro k a cs v o rfl here fires
  obtain ⟨waits, patient⟩ := ok
  obtain ⟨flag, mutex⟩ := account.writing waits
  refine patience_lowers fires mutex flag (fun holds => ?_) ?_
  · rw [← placeAt_of_getElem? here] at holds ⊢
    have same : k = i := account.unique holds (by rw [waits]; rfl)
    rw [same, waits]
  · refine ⟨?_, ?_, ?_⟩ <;> rintro rfl <;> exact patient

/-- Only obtaining the lock ends the wait. -/
theorem obtains_of_step {c c' : Config RWMutex Client RWEvent} {mv : Move RWAct} {i : Nat}
    (fires : Fires c mv c') (waits : placeAt c i = .writing) (done : placeAt c' i ≠ .writing) :
    ∃ v, c'.threads[i]? = some v ∧ v.place = .clearing ∧ v.writes = true := by
  cases fires with
  | @run k a cs v o here fires =>
    rw [placeAt_moves here] at done
    split at done
    · rename_i same
      subst same
      rw [placeAt_of_getElem? here] at waits
      refine ⟨o.self, List.getElem?_set_self (List.getElem?_eq_some_iff.mp here).1, ?_⟩
      cases a with
      | call op =>
        rw [rwBlock, if_neg (by rw [waits]; decide)] at fires
        cases fires
      | proceed =>
        simp only [rwBlock, proceedBlock, waits] at fires
        split at fires
        · obtain rfl := Option.some.inj fires
          exact ⟨rfl, rfl⟩
        · cases fires
    · exact absurd waits done

/-- In any run a writer that has raised the flag obtains the write lock, however many readers and
writers come after it, unless the others attempt to take the lock past it; and it is never
stuck, if nobody enters an acquisition with a lock in its hands. -/
theorem waiting_writer_obtains (clients i : Nat) {c : Config RWMutex Client RWEvent}
    (h : readersAndWriters.Run EmptyHanded (start clients) c) (waits : placeAt c i = .writing) :
    ¬ readersAndWriters.Resting Serves c ∧
      ∀ visits moves, visits 0 = c → readersAndWriters.Endless visits moves →
        (∀ n, Patient (visits n) (moves n)) →
        ∃ (n : Nat) (v : Client), (visits n).threads[i]? = some v ∧ v.place = .clearing ∧
          v.writes = true := by
  constructor
  · intro rests
    obtain ⟨v, here, place⟩ := getElem?_of_placeAt (i := i) (by rw [waits]; decide)
    have free := allFree_at_rest (mutexAccount_reach h.reach) (lockAccount_reach h.reach)
      (unladen_run h) rests
    rw [(free.outside v (List.mem_of_getElem? here)).1, waits] at place
    cases place
  · intro visits moves first endless patient
    have account (n : Nat) : MutexAccount (visits n) := by
      induction n with
      | zero => rw [first]; exact mutexAccount_reach h.reach
      | succ n ih => exact mutexAccount_step ih (rwChange_of_step (endless n))
    have ends : ∃ n, placeAt (visits n) i ≠ .writing := by
      obtain ⟨n, _, stops⟩ := endless.interrupted (fun m => acc_waitsFor i (account m)) 0
      exact ⟨n, fun still => stops ⟨still, patient n⟩⟩
    -- the first configuration in which it no longer waits
    have last := Nat.find_spec ends
    have before := fun m => Nat.find_min (m := m) ends
    generalize Nat.find ends = n at last before
    cases n with
    | zero => exact absurd (first ▸ waits) last
    | succ n =>
      have still := not_not.mp (before n (Nat.lt_succ_self n))
      exact ⟨n + 1, obtains_of_step (fires_of_step (endless n)) still last⟩

theorem waiting_writer_obtains_behindReader :
    ∃ c, placeAt c 1 = .writing ∧ ¬ readersAndWriters.Resting Serves c ∧
      ∀ visits moves, visits 0 = c → readersAndWriters.Endless visits moves →
        (∀ n, Patient (visits n) (moves n)) →
        ∃ (n : Nat) (v : Client), (visits n).threads[1]? = some v ∧ v.place = .clearing ∧
          v.writes = true := by
  obtain ⟨c, run, writing⟩ := readersAndWriters.exists_run EmptyHanded (start 3)
    (fun c => placeAt c 1 = .writing) behindReader (by decide)
  exact ⟨c, writing, waiting_writer_obtains 3 1 run writing⟩

end Threads.NoStarve
