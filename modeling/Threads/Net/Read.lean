import Threads.Checked
import Threads.Net.Socket

/-!
# `Socket::Read`

One attempt after another, each a poll (with an interrupt listener) and a `recv`; `retries`
is counted in three places. What the system does in an attempt, `errno` after it and the
time that it has taken come from outside.
-/

namespace Threads.Net

/-- What `recv` does: it fails, or it takes the next bytes off the stream. -/
inductive Recv (len : UInt32) where
  | failed
  | took (bytes : List UInt8) (within : bytes.length ≤ len.toNat)

def Recv.bytes {len : UInt32} : Recv len → List UInt8
  | .failed => []
  | .took bytes _ => bytes

/-- `static_cast<int>(recv(...))` -/
def Recv.got {len : UInt32} : Recv len → Int
  | .failed => -1
  | .took bytes _ => Checked.toInt bytes.length

/-- What an attempt gets from outside; `errno` may be older than its `recv`. -/
structure Attempt (len : UInt32) where
  poll : Poll
  recv : Recv len
  errno : Errno
  elapsedMicros : UInt32

/-- At `try_again`, with the bytes that the call has taken off the stream. -/
structure ReadState where
  retries : Int
  taken : List UInt8
  buf : List UInt8

structure ReadResult where
  value : UInt32
  /-- What the call has taken off the stream. -/
  taken : List UInt8
  /-- What the attempts before the last one have taken of it. -/
  retried : List UInt8
  buf : List UInt8

/-- `eagain_threshold_micros`; none when the multiplication overflows. -/
def Socket.eagainThreshold (p : Socket) : Option UInt32 :=
  if p.recvTimeout = 0 then some 0
  else do
    let micros ← Checked.mul p.recvTimeout 1000
    let each ← Checked.div micros (if 0 < p.maxRecvRetries then p.maxRecvRetries else 2)
    return UInt32.ofInt each

section

variable {len : UInt32}

/-- The test after the poll: `retries`, and whether to try again. -/
def pollTest (p : Socket) (retries : Int) (a : Attempt len) : Option (Int × Bool) :=
  if p.interruptListener && a.poll.interrupted then p.countRetry retries
  else some (retries, false)

def interruptTest (p : Socket) (retries : Int) (a : Attempt len) : Option (Int × Bool) :=
  if a.errno = .eintr then p.countRetry retries else some (retries, false)

/-- `EAGAIN` is taken to mean a lack of resources as long as the attempt was quick. -/
def Attempt.quick (a : Attempt len) (threshold : UInt32) : Bool :=
  threshold == 0 || decide (a.elapsedMicros < threshold)

/-- The tests after `recv`; the first is made whenever `got` is not 0. -/
def recvTest (p : Socket) (threshold : UInt32) (retries : Int) (a : Attempt len) :
    Option (Int × Bool) :=
  if a.recv.got ≠ 0 ∧ a.quick threshold then
    match p.countRetry retries with
    | none => none
    | some (retries, true) => some (retries, true)
    | some (retries, false) => interruptTest p retries a
  else interruptTest p retries a

def readTurn (p : Socket) (threshold : UInt32) (s : ReadState) (a : Attempt len) :
    Loop.Turn ReadState ReadResult :=
  match pollTest p s.retries a with
  | none => .undefined
  | some (retries, true) => .again { s with retries := retries }
  | some (retries, false) =>
    let taken := s.taken ++ a.recv.bytes
    let buf := a.recv.bytes ++ s.buf.drop a.recv.bytes.length
    match recvTest p threshold retries a with
    | none => .undefined
    | some (retries, true) => .again ⟨retries, taken, buf⟩
    | some (_, false) =>
      let value := if a.errno = .econnreset then 0 else UInt32.ofInt a.recv.got
      .leave ⟨value, taken, s.taken, buf⟩

/-- `Read` after at most `n` attempts. -/
def read (p : Socket) (buf : List UInt8) (attempts : Nat → Attempt len) (n : Nat) :
    Loop.Fate ReadState ReadResult :=
  match p.eagainThreshold with
  | none => .undefined
  | some threshold => Loop.run (readTurn p threshold) n ⟨0, [], buf⟩ attempts

/-! ## Bytes that are lost -/

/-- The result is the number of bytes taken, they are at the start of `buf`, and only
attempts that took none have been retried. -/
structure Lossless (len : UInt32) (r : ReadResult) : Prop where
  within : r.value ≤ len
  counted : r.value.toNat = r.taken.length
  stored : r.buf.take r.value.toNat = r.taken
  retried : r.retried = []

/-- The attempt is retried after its `recv`. -/
def Retries (p : Socket) (threshold : UInt32) (retries : Int) (a : Attempt len) : Prop :=
  retries < p.maxRecvRetries ∧
    (a.recv.got ≠ 0 ∧ a.quick threshold = true ∨ a.errno = .eintr)

/-- No bytes are thrown away: a `recv` that has taken bytes is not retried and finds no
`ECONNRESET` in `errno`, and one that has failed is retried or finds it. -/
def Keeps (p : Socket) (threshold : UInt32) (retries : Int) (a : Attempt len) : Prop :=
  match a.recv with
  | .failed => Retries p threshold retries a ∨ a.errno = .econnreset
  | .took bytes _ => bytes ≠ [] → ¬ Retries p threshold retries a ∧ a.errno ≠ .econnreset

/-- `retries` does not overflow, and what `recv` takes is kept unless the poll before it was
interrupted and is retried. -/
def Sound (p : Socket) (threshold : UInt32) (s : ReadState) (a : Attempt len) : Prop :=
  match pollTest p s.retries a with
  | none => False
  | some (_, true) => True
  | some (retries, false) =>
    (recvTest p threshold retries a).isSome = true ∧ Keeps p threshold retries a

/-! ## One attempt -/

variable {p : Socket} {threshold : UInt32} {retries next : Int} {s : ReadState} {a : Attempt len}

theorem countRetry_some {more : Bool} (h : p.countRetry retries = some (next, more)) :
    next = retries + 1 ∧ (more = true ↔ retries < p.maxRecvRetries) := by
  unfold Socket.countRetry at h
  split at h
  · obtain ⟨rfl, rfl⟩ := Prod.mk.inj (Option.some.inj h)
    exact ⟨rfl, decide_eq_true_iff⟩
  · cases h

theorem pollTest_again (h : pollTest p retries a = some (next, true)) :
    next = retries + 1 ∧ retries < p.maxRecvRetries := by
  unfold pollTest at h
  split at h
  · obtain ⟨counted, more⟩ := countRetry_some h
    exact ⟨counted, more.mp rfl⟩
  · cases h

theorem pollTest_goesOn (h : pollTest p retries a = some (next, false)) : retries ≤ next := by
  unfold pollTest at h
  split at h
  · obtain ⟨rfl, -⟩ := countRetry_some h
    omega
  · obtain ⟨rfl, -⟩ := Prod.mk.inj (Option.some.inj h)
    exact Int.le_refl _

theorem interruptTest_again (h : interruptTest p retries a = some (next, true)) :
    next = retries + 1 ∧ retries < p.maxRecvRetries ∧ a.errno = .eintr := by
  unfold interruptTest at h
  split at h
  · obtain ⟨counted, more⟩ := countRetry_some h
    exact ⟨counted, more.mp rfl, ‹_›⟩
  · cases h

theorem interruptTest_ends (h : interruptTest p retries a = some (next, false)) :
    ¬ (retries < p.maxRecvRetries ∧ a.errno = .eintr) := by
  rintro ⟨room, interrupted⟩
  unfold interruptTest at h
  rw [if_pos interrupted] at h
  have more := (countRetry_some h).2.mpr room
  cases more

/-- A retry after `recv` is counted. -/
theorem recvTest_again (h : recvTest p threshold retries a = some (next, true)) :
    Retries p threshold retries a ∧ retries < next := by
  unfold recvTest at h
  split at h
  · rename_i resources
    split at h
    · cases h
    · rename_i counted first
      obtain ⟨rfl, -⟩ := Prod.mk.inj (Option.some.inj h)
      obtain ⟨rfl, more⟩ := countRetry_some first
      exact ⟨⟨more.mp rfl, .inl resources⟩, Int.lt_add_one_of_le (Int.le_refl _)⟩
    · rename_i counted first
      obtain ⟨rfl, -⟩ := countRetry_some first
      obtain ⟨rfl, room, interrupted⟩ := interruptTest_again h
      exact ⟨⟨by omega, .inr interrupted⟩, by omega⟩
  · obtain ⟨rfl, room, interrupted⟩ := interruptTest_again h
    exact ⟨⟨room, .inr interrupted⟩, Int.lt_add_one_of_le (Int.le_refl _)⟩

theorem recvTest_ends (h : recvTest p threshold retries a = some (next, false)) :
    ¬ Retries p threshold retries a := by
  rintro ⟨room, reason⟩
  unfold recvTest at h
  split at h
  · split at h
    · cases h
    · cases h
    · rename_i counted first
      have more := (countRetry_some first).2.mpr room
      cases more
  · rename_i calm
    rcases reason with resources | interrupted
    · exact calm resources
    · exact interruptTest_ends h ⟨room, interrupted⟩

/-- The number of bytes comes back through the `int`. -/
theorem toNat_ofInt_got {bytes : List UInt8} (within : bytes.length ≤ len.toNat) :
    (UInt32.ofInt (Recv.took bytes within).got).toNat = bytes.length := by
  have small : bytes.length < 2 ^ 32 := Nat.lt_of_le_of_lt within len.toNat_lt
  have whole : Int.bmod bytes.length (2 ^ 32) % 2 ^ 32 = (bytes.length : Int) := by
    have same : Int.bmod bytes.length (2 ^ 32) % ((2 ^ 32 : Nat) : Int) =
        bytes.length % ((2 ^ 32 : Nat) : Int) := Int.bmod_emod
    omega
  unfold Recv.got Checked.toInt UInt32.ofInt
  rw [whole, Int.toNat_natCast, UInt32.toNat_ofNat']
  exact Nat.mod_eq_of_lt small

/-- A retry after `recv` is harmless if nothing has been taken. -/
theorem keeps_of_retries (retried : Retries p threshold retries a) :
    Keeps p threshold retries a ↔ a.recv.bytes = [] := by
  unfold Keeps
  cases a.recv with
  | failed => exact ⟨fun _ => rfl, fun _ => .inl retried⟩
  | took bytes within =>
    constructor
    · intro kept
      by_contra some
      exact (kept some).1 retried
    · intro nothing some
      exact absurd nothing some

/-- The value of an attempt that is the only one, and the last. -/
theorem keeps_of_ends (final : ¬ Retries p threshold retries a) (rest : List UInt8) :
    Keeps p threshold retries a ↔
      Lossless len ⟨if a.errno = .econnreset then 0 else UInt32.ofInt a.recv.got, a.recv.bytes,
        [], a.recv.bytes ++ rest⟩ := by
  unfold Keeps
  cases a.recv with
  | failed =>
    by_cases reset : a.errno = .econnreset
    · rw [if_pos reset]
      exact ⟨fun _ => ⟨UInt32.zero_le, rfl, rfl, rfl⟩, fun _ => .inr reset⟩
    · rw [if_neg reset]
      constructor
      · rintro (retried | reset')
        · exact absurd retried final
        · exact absurd reset' reset
      · rintro ⟨-, counted, -, -⟩
        cases counted
  | took bytes within =>
    have value := toNat_ofInt_got within
    by_cases reset : a.errno = .econnreset
    · rw [if_pos reset]
      constructor
      · intro kept
        have nothing : bytes = [] := by
          by_contra some
          exact (kept some).2 reset
        subst nothing
        exact ⟨UInt32.zero_le, rfl, rfl, rfl⟩
      · rintro ⟨-, counted, -, -⟩ some
        exact absurd (List.length_eq_zero_iff.mp counted.symm) some
    · rw [if_neg reset]
      constructor
      · intro _
        refine ⟨?_, value, ?_, rfl⟩
        · rw [UInt32.le_iff_toNat_le, value]
          exact within
        · dsimp only [Recv.bytes]
          rw [value, List.take_left]
      · intro _ _
        exact ⟨final, reset⟩

/-- Nothing has been taken before this attempt. -/
def Fresh (s : ReadState) : Prop := s.taken = []

/-- The retries that are left. -/
def retriesLeft (p : Socket) (s : ReadState) : Nat := (p.maxRecvRetries - s.retries).toNat

theorem readTurn_sound (fresh : Fresh s) (sound : Sound p threshold s a) :
    (∃ next, readTurn p threshold s a = .again next ∧ Fresh next ∧
        retriesLeft p next < retriesLeft p s) ∨
      ∃ r, readTurn p threshold s a = .leave r ∧ Lossless len r := by
  unfold Sound at sound
  unfold readTurn
  split at sound
  · exact absurd sound False.elim
  · rename_i retries first
    obtain ⟨counted, room⟩ := pollTest_again first
    refine .inl ⟨_, rfl, fresh, ?_⟩
    unfold retriesLeft
    dsimp only
    omega
  · rename_i retries first
    have before := pollTest_goesOn first
    obtain ⟨counted, kept⟩ := sound
    unfold Fresh at fresh
    dsimp only
    rw [fresh, List.nil_append]
    split
    · rename_i overflows
      rw [overflows] at counted
      cases counted
    · rename_i later last
      obtain ⟨retried, more⟩ := recvTest_again last
      refine .inl ⟨_, rfl, (keeps_of_retries retried).mp kept, ?_⟩
      have room := retried.1
      unfold retriesLeft
      dsimp only
      omega
    · rename_i later last
      exact .inr ⟨_, rfl, (keeps_of_ends (recvTest_ends last) _).mp kept⟩

theorem readTurn_unsound (fresh : Fresh s) (bad : ¬ Sound p threshold s a) :
    Loop.Spoils (fun s => ¬ Fresh s) (Lossless len) (readTurn p threshold s a) := by
  unfold Sound at bad
  unfold readTurn
  split at bad
  · trivial
  · exact absurd trivial bad
  · rename_i retries first
    unfold Fresh at fresh
    dsimp only
    rw [fresh, List.nil_append]
    split
    · trivial
    · rename_i later last
      intro nothing
      rw [last] at bad
      exact bad ⟨rfl, (keeps_of_retries (recvTest_again last).1).mpr nothing⟩
    · rename_i later last
      intro lossless
      rw [last] at bad
      exact bad ⟨rfl, (keeps_of_ends (recvTest_ends last) _).mpr lossless⟩

/-- What a retry has thrown away does not come back. -/
theorem readTurn_spoiled (spoiled : ¬ Fresh s) :
    Loop.Spoils (fun s => ¬ Fresh s) (Lossless len) (readTurn p threshold s a) := by
  unfold readTurn
  split
  · trivial
  · exact spoiled
  · dsimp only
    split
    · trivial
    · intro nothing
      exact spoiled (List.append_eq_nil_iff.mp nothing).1
    · rintro ⟨-, -, -, retried⟩
      exact spoiled retried

end

/-- `Read` returns what it has taken off the stream, and has kept all of it, exactly if its
threshold can be computed and every attempt it comes to is sound. -/
theorem read_lossless_iff (p : Socket) (len : UInt32) (buf : List UInt8)
    (attempts : Nat → Attempt len) :
    (∃ n r, read p buf attempts n = .left r ∧ Lossless len r) ↔
      ∃ threshold, p.eagainThreshold = some threshold ∧
        Loop.EachTurn (readTurn p threshold) (Sound p threshold) ⟨0, [], buf⟩ attempts := by
  unfold read
  cases p.eagainThreshold with
  | none =>
    constructor
    · rintro ⟨n, r, left, -⟩
      cases left
    · rintro ⟨threshold, some, -⟩
      cases some
  | some threshold =>
    have exactly :
        (∃ n r, Loop.run (readTurn p threshold) n ⟨0, [], buf⟩ attempts = .left r ∧
            Lossless len r) ↔
          Loop.EachTurn (readTurn p threshold) (Sound p threshold) ⟨0, [], buf⟩ attempts :=
      Loop.left_iff (retriesLeft p) readTurn_sound readTurn_unsound readTurn_spoiled
        (show Fresh ⟨0, [], buf⟩ from rfl)
    constructor
    · intro left
      exact ⟨threshold, rfl, exactly.mp left⟩
    · rintro ⟨same, eq, each⟩
      obtain rfl := Option.some.inj eq
      exact exactly.mpr each

/-- `recv` gives the same three bytes every time: they are taken six times and returned
once. -/
theorem read_threeBytes :
    ∃ r, @read 3 ⟨some 3, false, 0, 5⟩ [0, 0, 0]
        (fun _ => ⟨⟨0, .other 0, false⟩, .took [1, 2, 3] (by decide), .other 0, 10⟩) 6 =
      .left r ∧ ¬ Lossless 3 r := by
  refine ⟨_, rfl, ?_⟩
  rintro ⟨-, -, -, retried⟩
  cases retried

end Threads.Net
