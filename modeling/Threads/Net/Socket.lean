import Threads.Loop
import Mathlib.Algebra.Ring.Int.Defs
import Mathlib.Algebra.Order.Ring.Int
import Mathlib.Data.List.Basic

/-!
# `Socket::Peek`

What `Peek` and `Read` have of a socket, and the polling loop of `Peek`, which goes round
again after every poll that fails.
-/

namespace Threads.Net

/-- The members that `Peek` and `Read` use; `socket_` is -1 when there is none. -/
structure Socket where
  socket : Option Nat
  interruptListener : Bool := false
  recvTimeout : Int := 0
  maxRecvRetries : Int := 5
  deriving DecidableEq, Repr

/-- The values of `errno` that the code tests, and the others. -/
inductive Errno where
  | eintr
  | eagain
  | econnreset
  | enotconn
  | etimedout
  | einprogress
  | ewouldblock
  | other (code : Int)
  deriving DecidableEq, Repr

/-- `retries++ < max_recv_retries_`, with the new value of the `int`; none when it overflows. -/
def Socket.countRetry (p : Socket) (retries : Int) : Option (Int × Bool) :=
  if retries < 2147483647 then some (retries + 1, decide (retries < p.maxRecvRetries)) else none

/-- What `poll` returns, with `errno` and the `POLLIN` of the interrupt listener after it. -/
structure Poll where
  ret : Int
  errno : Errno
  interrupt : Bool
  deriving DecidableEq, Repr

/-- `poll` was interrupted by a signal. -/
def Poll.interrupted (o : Poll) : Bool := decide (o.ret < 0) && o.errno == .eintr

/-! ## The loop of `Peek` -/

/-- How the loop is left: by a `return false`, or to `recv`. -/
inductive PeekExit where
  | returnFalse
  | toRecv
  deriving DecidableEq, Repr

def peekTurn (p : Socket) (retries : Int) (o : Poll) : Loop.Turn Int PeekExit :=
  if o.ret < 0 then
    if o.errno = .eintr then
      match p.countRetry retries with
      | none => .undefined
      | some (retries, true) => .again retries
      -- the `throw` after the log line is commented out
      | some (retries, false) => .again retries
    else .again retries
  else if 0 < o.ret then if o.interrupt then .leave .returnFalse else .leave .toRecv
  else .leave .returnFalse

/-- `Peek` after at most `n` polls; `available` says whether `recv` finds a byte. -/
def peek (p : Socket) (polls : Nat → Poll) (available : Bool) (n : Nat) : Loop.Fate Int Bool :=
  match p.socket with
  | none => .left false
  | some _ =>
    if p.interruptListener then
      match Loop.run (peekTurn p) n 0 polls with
      | .left .toRecv => .left available
      | .left .returnFalse => .left false
      | .running retries => .running retries
      | .undefined => .undefined
    else .left available

/-- The polls before the `i`-th that were interrupted. -/
def interruptions (polls : Nat → Poll) (i : Nat) : Nat :=
  (List.range i).countP fun k => (polls k).interrupted

/-- One of the first `n` polls does not fail, and `retries` can count the interruptions
before it. -/
def SucceedsWithin (n : Nat) (polls : Nat → Poll) : Prop :=
  ∃ i, i < n ∧ 0 ≤ (polls i).ret ∧ interruptions polls i ≤ 2147483647

section

variable {p : Socket} {retries : Int} {o : Poll}

theorem peekTurn_leaves (h : 0 ≤ o.ret) : ∃ r, peekTurn p retries o = .leave r := by
  unfold peekTurn
  rw [if_neg (Int.not_lt.mpr h)]
  split
  · split
    · exact ⟨_, rfl⟩
    · exact ⟨_, rfl⟩
  · exact ⟨_, rfl⟩

/-- A failed poll never ends the loop. -/
theorem peekTurn_fails (h : o.ret < 0) :
    peekTurn p retries o =
      if o.errno = .eintr then
        if retries < 2147483647 then .again (retries + 1) else .undefined
      else .again retries := by
  unfold peekTurn Socket.countRetry
  rw [if_pos h]
  by_cases counted : o.errno = .eintr
  · rw [if_pos counted, if_pos counted]
    by_cases room : retries < 2147483647
    · rw [if_pos room, if_pos room]
      cases decide (retries < p.maxRecvRetries) with
      | true => rfl
      | false => rfl
    · rw [if_neg room, if_neg room]
  · rw [if_neg counted, if_neg counted]

theorem interruptions_succ (polls : Nat → Poll) (i : Nat) :
    interruptions polls (i + 1) =
      interruptions (fun k => polls (k + 1)) i + if (polls 0).interrupted then 1 else 0 := by
  unfold interruptions
  rw [List.range_succ_eq_map, List.countP_cons, List.countP_map]
  rfl

/-- The first poll is not the one that succeeds, so all of them move on by one. -/
theorem exists_success_succ {n : Nat} {polls : Nat → Poll} {next : Int}
    (fails : (polls 0).ret < 0)
    (counted : next = retries + if (polls 0).interrupted then 1 else 0) :
    (∃ i, i < n + 1 ∧ 0 ≤ (polls i).ret ∧ retries + interruptions polls i ≤ 2147483647) ↔
      ∃ i, i < n ∧ 0 ≤ (polls (i + 1)).ret ∧
        next + interruptions (fun k => polls (k + 1)) i ≤ 2147483647 := by
  have later (i : Nat) : retries + interruptions polls (i + 1) =
      next + interruptions (fun k => polls (k + 1)) i := by
    rw [interruptions_succ, counted]
    push_cast
    omega
  constructor
  · rintro ⟨i, within, succeeds, count⟩
    cases i with
    | zero => exact absurd fails (Int.not_lt.mpr succeeds)
    | succ i =>
      rw [later] at count
      exact ⟨i, Nat.lt_of_succ_lt_succ within, succeeds, count⟩
  · rintro ⟨i, within, succeeds, count⟩
    rw [← later] at count
    exact ⟨i + 1, Nat.succ_lt_succ within, succeeds, count⟩

theorem run_peekTurn_iff {n : Nat} {polls : Nat → Poll} (room : retries ≤ 2147483647) :
    (∃ r, Loop.run (peekTurn p) n retries polls = .left r) ↔
      ∃ i, i < n ∧ 0 ≤ (polls i).ret ∧ retries + interruptions polls i ≤ 2147483647 := by
  induction n generalizing retries polls with
  | zero =>
    constructor
    · rintro ⟨r, left⟩
      cases left
    · rintro ⟨i, within, -⟩
      exact absurd within (Nat.not_lt_zero i)
  | succ n ih =>
    by_cases fails : (polls 0).ret < 0
    · have turned := @peekTurn_fails p retries _ fails
      by_cases counted : (polls 0).errno = .eintr
      · have interrupted : (polls 0).interrupted = true := by
          simp [Poll.interrupted, fails, counted]
        rw [if_pos counted] at turned
        rw [exists_success_succ fails (by rw [if_pos interrupted])]
        by_cases some : retries < 2147483647
        · rw [if_pos some] at turned
          rw [Loop.run_again turned]
          exact ih some
        · rw [if_neg some] at turned
          rw [Loop.run_undefined turned]
          constructor
          · rintro ⟨r, left⟩
            cases left
          · rintro ⟨i, -, -, count⟩
            omega
      · have uncounted : (polls 0).interrupted = false := by
          simp [Poll.interrupted, counted]
        rw [if_neg counted] at turned
        rw [@exists_success_succ retries n polls retries fails (by simp [uncounted]),
          Loop.run_again turned]
        exact ih room
    · have succeeds : 0 ≤ (polls 0).ret := Int.not_lt.mp fails
      obtain ⟨r, leaves⟩ := @peekTurn_leaves p retries _ succeeds
      constructor
      · intro _
        exact ⟨0, Nat.succ_pos n, succeeds, by simpa [interruptions] using room⟩
      · intro _
        exact ⟨r, Loop.run_leave leaves⟩

end

theorem peek_left_iff {fd : Nat} {recvTimeout maxRecvRetries : Int} {polls : Nat → Poll}
    {available : Bool} {n : Nat} :
    (∃ result, peek ⟨some fd, true, recvTimeout, maxRecvRetries⟩ polls available n =
        .left result) ↔
      ∃ r, Loop.run (peekTurn ⟨some fd, true, recvTimeout, maxRecvRetries⟩) n 0 polls =
        .left r := by
  dsimp only [peek]
  rw [if_pos rfl]
  constructor
  · rintro ⟨result, left⟩
    split at left
    · exact ⟨_, ‹_›⟩
    · exact ⟨_, ‹_›⟩
    · cases left
    · cases left
  · rintro ⟨r, left⟩
    rw [left]
    cases r with
    | returnFalse => exact ⟨_, rfl⟩
    | toRecv => exact ⟨_, rfl⟩

/-- `Peek` is done with its loop after `max_recv_retries_ + 1` polls exactly if one of them
does not fail: `max_recv_retries_` itself ends nothing. -/
theorem peek_leaves_iff (fd : Nat) (recvTimeout : Int) (maxRecvRetries : Nat)
    (polls : Nat → Poll) (available : Bool) :
    (∃ result, peek ⟨some fd, true, recvTimeout, maxRecvRetries⟩ polls available
        (maxRecvRetries + 1) = .left result) ↔
      SucceedsWithin (maxRecvRetries + 1) polls := by
  rw [peek_left_iff, run_peekTurn_iff (by decide)]
  unfold SucceedsWithin
  simp only [Int.zero_add]
  norm_cast

/-- Signals interrupt every `poll`, and when the retries are used up the loop goes on. -/
theorem peek_interrupted :
    ¬ ∃ result, peek ⟨some 3, true, 0, 5⟩ (fun _ => ⟨-1, .eintr, false⟩) true (5 + 1) =
      .left result := by
  rintro ⟨result, left⟩
  cases left

end Threads.Net
