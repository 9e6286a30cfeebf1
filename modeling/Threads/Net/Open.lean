import Threads.Net.Socket
import Mathlib.Logic.Function.Basic

/-!
# `Socket::Open`

`LocalOpen` goes through the addresses of a host until `OpenConnection` does not throw. It
is about sockets without a `path_`; what the system does in each attempt comes from outside.
-/

namespace Threads.Net

/-! ## The code -/

inductive ConnectResult where
  | connected
  | failed (errno : Errno)
  deriving DecidableEq, Repr

/-- What the `poll` after `connect` finds, and `SO_ERROR` if the socket is ready. -/
inductive ConnectPoll where
  | ready (soError : Int)
  | timedOut
  | failed
  deriving DecidableEq, Repr

/-- An address of the list, and what happens in the attempt to connect to it. The functions
that the repository declares and does not have (`SetLinger`, `SetNoDelay`,
`SetCachedAddress` and others) may throw, before `connect` or after it. -/
structure Candidate where
  address : Nat
  fd : Option Nat
  connect : ConnectResult
  poll : ConnectPoll
  setupThrows : Bool := false
  finishThrows : Bool := false
  deriving DecidableEq, Repr

/-- `socket_`, none being -1, and the address that each descriptor is connected to. -/
structure OpenState where
  socket : Option Nat
  peers : Nat → Option Nat

namespace OpenState

def isOpen (s : OpenState) : Bool := s.socket.isSome

/-- `socket_ = socket(...)` -/
def create (s : OpenState) (fd : Option Nat) : OpenState :=
  match fd with
  | none => { s with socket := none }
  | some fd => { socket := some fd, peers := Function.update s.peers fd none }

/-- The system connects `socket_` to the address. -/
def connectTo (s : OpenState) (address : Nat) : OpenState :=
  match s.socket with
  | none => s
  | some fd => { s with peers := Function.update s.peers fd (some address) }

def close (s : OpenState) : OpenState :=
  match s.socket with
  | none => s
  | some fd => { socket := none, peers := Function.update s.peers fd none }

end OpenState

/-- `connect` leaves the system connecting: the socket does not block, or a signal has
interrupted the call. -/
def Candidate.inProgress (c : Candidate) : Bool :=
  c.connect == .failed .einprogress || c.connect == .failed .eintr

/-- A connection in progress is there when the socket is ready and has no error. -/
def Candidate.completes (c : Candidate) : Bool := c.inProgress && c.poll == .ready 0

/-- `OpenConnection(res)`, and whether it throws. -/
def openConnection (s : OpenState) (c : Candidate) : OpenState × Bool :=
  if s.isOpen then (s, false)
  else
    -- a `socket()` that fails is only logged
    let s := s.create c.fd
    if c.setupThrows then (s, true)
    else
      let s := if c.connect = .connected then s.connectTo c.address else s
      -- `res` is tested in place of `ret`, so `poll` is called after every `connect`;
      -- where it finds an error, the `throw` is commented out and `done` is next
      let s := if c.completes then s.connectTo c.address else s
      (s, c.finishThrows)

/-- The loop of `LocalOpen`, and whether an exception leaves it. -/
def tryAddresses : List Candidate → OpenState → OpenState × Bool
  | [], s => (s, false)
  | c :: rest, s =>
    match openConnection s c with
    | (s, false) => (s, false)
    | (s, true) => if rest.isEmpty then (s.close, true) else tryAddresses rest s.close

/-- `LocalOpen`, with what `getaddrinfo` has found; after an error there is no address. -/
def localOpen (s : OpenState) (resolved : Option (List Candidate)) : OpenState × Bool :=
  if s.isOpen then (s, false)
  else
    match resolved with
    | none => tryAddresses [] s.close
    | some candidates => tryAddresses candidates s

def openSocket (s : OpenState) (resolved : Option (List Candidate)) : OpenState × Bool :=
  if s.isOpen then (s, false) else localOpen s resolved

/-! ## The right end -/

def Candidate.raises (c : Candidate) : Bool := c.setupThrows || c.finishThrows

/-- The attempt connects its descriptor and is not given up. -/
def Candidate.succeeds (c : Candidate) : Bool :=
  !c.raises && c.fd.isSome && (c.connect == .connected || c.completes)

/-- `socket_` is connected to the first address whose attempt succeeds, or it is closed if
there is none. -/
def EndsRight (candidates : List Candidate) (s : OpenState) : Prop :=
  match candidates.find? Candidate.succeeds with
  | some c => ∃ fd, s.socket = some fd ∧ s.peers fd = some c.address
  | none => s.socket = none

/-- The first attempt that does not throw succeeds, or has no descriptor while no other
attempt succeeds either. -/
def FirstDecides (candidates : List Candidate) : Prop :=
  ∀ c, candidates.find? (fun c => !c.raises) = some c →
    c.succeeds = true ∨ c.fd = none ∧ ∀ c' ∈ candidates, c'.succeeds = false

section

variable {c : Candidate} {peers : Nat → Option Nat}

theorem succeeds_of_raises (raises : c.raises = true) : c.succeeds = false := by
  simp [Candidate.succeeds, raises]

theorem fd_of_succeeds (succeeds : c.succeeds = true) : c.fd.isSome = true := by
  rw [Candidate.succeeds, Bool.and_eq_true, Bool.and_eq_true] at succeeds
  exact succeeds.1.2

theorem close_closed (s : OpenState) : ∃ peers', s.close = ⟨none, peers'⟩ := by
  obtain ⟨socket, peers⟩ := s
  cases socket with
  | none => exact ⟨peers, rfl⟩
  | some fd => exact ⟨_, rfl⟩

theorem not_isOpen_closed (peers : Nat → Option Nat) :
    ¬ OpenState.isOpen ⟨none, peers⟩ = true := Bool.false_ne_true

/-- An attempt that throws ends in the handler. -/
theorem openConnection_raises (raises : c.raises = true) :
    ∃ s, openConnection ⟨none, peers⟩ c = (s, true) := by
  unfold openConnection
  rw [if_neg (not_isOpen_closed peers)]
  dsimp only
  by_cases early : c.setupThrows = true
  · rw [if_pos early]
    exact ⟨_, rfl⟩
  · rw [if_neg early]
    have late : c.finishThrows = true := ((Bool.or_eq_true _ _).mp raises).resolve_left early
    rw [late]
    exact ⟨_, rfl⟩

/-- Any other attempt leaves its descriptor in `socket_`, connected or not. -/
theorem openConnection_returns (returns : c.raises = false) :
    ∃ s, openConnection ⟨none, peers⟩ c = (s, false) ∧ s.socket = c.fd ∧
      ∀ fd, c.fd = some fd → s.peers fd = if c.succeeds then some c.address else none := by
  obtain ⟨calm, done⟩ := Bool.or_eq_false_iff.mp returns
  unfold openConnection
  rw [if_neg (not_isOpen_closed peers)]
  dsimp only
  rw [calm, done, if_neg Bool.false_ne_true]
  refine ⟨_, rfl, ?_⟩
  cases given : c.fd with
  | none =>
    have nothing : OpenState.connectTo ⟨none, peers⟩ c.address = ⟨none, peers⟩ := rfl
    rw [OpenState.create, nothing, ite_self, nothing, ite_self]
    exact ⟨rfl, fun fd some => absurd some (Option.some_ne_none fd).symm⟩
  | some fd =>
    have succeeds : c.succeeds = (c.connect == .connected || c.completes) := by
      simp [Candidate.succeeds, returns, given]
    rw [succeeds]
    by_cases connected : c.connect = .connected
    · have never : c.completes = false := by
        simp [Candidate.completes, Candidate.inProgress, connected]
      rw [if_pos connected, never, if_neg Bool.false_ne_true, connected]
      refine ⟨rfl, ?_⟩
      intro fd' same
      obtain rfl := Option.some.inj same
      exact Function.update_self _ _ _
    · rw [if_neg connected, beq_eq_false_iff_ne.mpr connected, Bool.false_or]
      by_cases completes : c.completes = true
      · rw [if_pos completes, if_pos completes]
        refine ⟨rfl, ?_⟩
        intro fd' same
        obtain rfl := Option.some.inj same
        exact Function.update_self _ _ _
      · rw [if_neg completes, if_neg completes]
        refine ⟨rfl, ?_⟩
        intro fd' same
        obtain rfl := Option.some.inj same
        exact Function.update_self _ _ _

theorem tryAddresses_raises (raises : c.raises = true) (rest : List Candidate) :
    ∃ peers',
      (tryAddresses (c :: rest) ⟨none, peers⟩).1 = (tryAddresses rest ⟨none, peers'⟩).1 := by
  obtain ⟨s, attempt⟩ := @openConnection_raises c peers raises
  obtain ⟨peers', closed⟩ := close_closed s
  refine ⟨peers', ?_⟩
  rw [tryAddresses, attempt]
  dsimp only
  rw [closed]
  cases rest with
  | nil => rfl
  | cons => rfl

theorem endsRight_connected {s : OpenState} {rest : List Candidate} (succeeds : c.succeeds = true)
    (socket : s.socket = c.fd) (peer : ∀ fd, c.fd = some fd → s.peers fd = some c.address) :
    EndsRight (c :: rest) s := by
  obtain ⟨fd, given⟩ := Option.isSome_iff_exists.mp (fd_of_succeeds succeeds)
  unfold EndsRight
  rw [List.find?_cons_of_pos succeeds]
  exact ⟨fd, socket.trans given, peer fd given⟩

/-- A descriptor in `socket_` that is connected to nobody is never right. -/
theorem not_endsRight_unconnected {s : OpenState} {fd : Nat} (socket : s.socket = some fd)
    (nobody : s.peers fd = none) (candidates : List Candidate) : ¬ EndsRight candidates s := by
  intro right
  unfold EndsRight at right
  split at right
  · obtain ⟨fd', left, connected⟩ := right
    obtain rfl := Option.some.inj (socket.symm.trans left)
    rw [nobody] at connected
    cases connected
  · rw [socket] at right
    cases right

theorem endsRight_closed_iff {s : OpenState} (socket : s.socket = none)
    (candidates : List Candidate) :
    EndsRight candidates s ↔ ∀ c ∈ candidates, c.succeeds = false := by
  unfold EndsRight
  cases found : candidates.find? Candidate.succeeds with
  | none =>
    have nobody := List.find?_eq_none.mp found
    exact ⟨fun _ c mem => Bool.eq_false_iff.mpr (nobody c mem), fun _ => socket⟩
  | some c =>
    constructor
    · rintro ⟨fd, left, -⟩
      rw [socket] at left
      cases left
    · intro nobody
      have works := List.find?_some found
      rw [nobody c (List.mem_of_find?_eq_some found)] at works
      cases works

theorem endsRight_iff_of_returns {s : OpenState} (rest : List Candidate) (socket : s.socket = c.fd)
    (peer : ∀ fd, c.fd = some fd → s.peers fd = if c.succeeds then some c.address else none) :
    EndsRight (c :: rest) s ↔
      c.succeeds = true ∨ c.fd = none ∧ ∀ c' ∈ c :: rest, c'.succeeds = false := by
  by_cases succeeds : c.succeeds = true
  · rw [if_pos succeeds] at peer
    exact ⟨fun _ => .inl succeeds, fun _ => endsRight_connected succeeds socket peer⟩
  · rw [if_neg succeeds] at peer
    cases given : c.fd with
    | none =>
      rw [endsRight_closed_iff (socket.trans given)]
      refine ⟨fun nobody => .inr ⟨rfl, nobody⟩, ?_⟩
      rintro (impossible | ⟨-, nobody⟩)
      · exact absurd impossible succeeds
      · exact nobody
    | some fd =>
      constructor
      · intro right
        exact absurd right
          (not_endsRight_unconnected (socket.trans given) (peer fd given) (c :: rest))
      · rintro (impossible | ⟨impossible, -⟩)
        · exact absurd impossible succeeds
        · cases impossible

theorem tryAddresses_iff (candidates : List Candidate) :
    EndsRight candidates (tryAddresses candidates ⟨none, peers⟩).1 ↔ FirstDecides candidates := by
  induction candidates generalizing peers with
  | nil => exact ⟨fun _ c first => absurd first (Option.some_ne_none c).symm, fun _ => rfl⟩
  | cons c rest ih =>
    cases raises : c.raises with
    | true =>
      have fails := succeeds_of_raises raises
      obtain ⟨peers', later⟩ := @tryAddresses_raises c peers raises rest
      have right : EndsRight (c :: rest) (tryAddresses (c :: rest) ⟨none, peers⟩).1 ↔
          EndsRight rest (tryAddresses rest ⟨none, peers'⟩).1 := by
        unfold EndsRight
        rw [later, List.find?_cons_of_neg (by simp [fails])]
      have decides : FirstDecides (c :: rest) ↔ FirstDecides rest := by
        unfold FirstDecides
        rw [List.find?_cons_of_neg (by simp [raises])]
        simp only [List.forall_mem_cons, fails, true_and]
      rw [right, decides]
      exact ih
    | false =>
      obtain ⟨s, attempt, socket, peer⟩ := @openConnection_returns c peers raises
      have final : (tryAddresses (c :: rest) ⟨none, peers⟩).1 = s := by
        rw [tryAddresses, attempt]
      have first : (c :: rest).find? (fun c => !c.raises) = some c :=
        List.find?_cons_of_pos (by simp [raises])
      have decides : FirstDecides (c :: rest) ↔
          c.succeeds = true ∨ c.fd = none ∧ ∀ c' ∈ c :: rest, c'.succeeds = false := by
        unfold FirstDecides
        rw [first]
        simp only [Option.some.injEq, forall_eq']
      rw [final, decides]
      exact endsRight_iff_of_returns rest socket peer

end

/-- `Open` ends connected to the first address that works, or closed, if and only if the first
attempt that does not throw decides it. -/
theorem openSocket_endsRight_iff (peers : Nat → Option Nat) (candidates : List Candidate) :
    EndsRight candidates (openSocket ⟨none, peers⟩ (some candidates)).1 ↔
      FirstDecides candidates := by
  rw [openSocket, if_neg (not_isOpen_closed peers), localOpen, if_neg (not_isOpen_closed peers)]
  exact tryAddresses_iff candidates

/-- Nobody listens at the first address, and the second would connect. -/
def refusedThenConnected : List Candidate :=
  [{ address := 1, fd := some 3, connect := .failed (.other 111), poll := .ready 0 },
   { address := 2, fd := some 4, connect := .connected, poll := .ready 0 }]

/-- `Open` keeps the descriptor that is connected to nobody. -/
theorem openSocket_refused :
    (openSocket ⟨none, fun _ => none⟩ (some refusedThenConnected)).1.socket = some 3 ∧
      ¬ EndsRight refusedThenConnected
        (openSocket ⟨none, fun _ => none⟩ (some refusedThenConnected)).1 := by
  refine ⟨by decide, ?_⟩
  intro right
  have second : refusedThenConnected.find? Candidate.succeeds = refusedThenConnected[1]? := by
    decide
  unfold EndsRight at right
  rw [second] at right
  obtain ⟨fd, left, peer⟩ := right
  obtain rfl := Option.some.inj left
  exact absurd peer (by decide)

end Threads.Net
