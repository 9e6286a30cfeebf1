import Threads.Custody
import Threads.Net.Open

/-!
# The descriptors of a socket

A `Socket` gets its descriptors from `socket()`, from its constructor or from `SetSocketFD`, and
closes them in `Close`, in the handlers of `LocalOpen`, in `SetSocketFD` and in `~Socket`.
-/

namespace Threads.Net

open Custody

/-! ## The code -/

abbrev FdCall := Custody.Call Nat

/-- `OpenConnection(nullptr)`, for a `path_`, and whether it throws; `done` is next after
`connect`. -/
def unixOpen (s : OpenState) (c : Candidate) : OpenState × Bool :=
  if s.isOpen then (s, false)
  else
    let s := s.create c.fd
    if c.setupThrows then (s, true)
    else (if c.connect = .connected then s.connectTo c.address else s, false)

/-- What an `Open` finds: the addresses of `host_`, or what happens with `path_`. -/
structure OpenInput where
  resolved : Option (List Candidate)
  unix : Candidate

inductive SocketOp where
  | open (input : OpenInput)
  | close
  | setSocketFD (fd : Option Nat)
  /-- Other code opens a descriptor. -/
  | elsewhere (fd : Nat)

/-- The state after an operation, of a socket with a `path_` or without. -/
def SocketOp.apply (path : Bool) (s : OpenState) : SocketOp → OpenState
  | .open input => if path then (unixOpen s input.unix).1 else (openSocket s input.resolved).1
  | .close => s.close
  | .setSocketFD fd => { s.close with socket := fd }
  | .elsewhere _ => s

/-! ## The calls about descriptors -/

def created : Option Nat → List FdCall
  | none => []
  | some fd => [.obtained fd]

def adopted : Option Nat → List FdCall
  | none => []
  | some fd => [.adopted fd]

def OpenState.closeCalls (s : OpenState) : List FdCall := release s.socket

def openConnectionCalls (s : OpenState) (c : Candidate) : List FdCall :=
  if s.isOpen then [] else created c.fd

def tryAddressesCalls : List Candidate → OpenState → List FdCall
  | [], _ => []
  | c :: rest, s =>
    openConnectionCalls s c ++
      match openConnection s c with
      | (_, false) => []
      | (s, true) => s.closeCalls ++ if rest.isEmpty then [] else tryAddressesCalls rest s.close

def openCalls (s : OpenState) (resolved : Option (List Candidate)) : List FdCall :=
  if s.isOpen then []
  else
    match resolved with
    | none => s.closeCalls
    | some candidates => tryAddressesCalls candidates s

def SocketOp.calls (path : Bool) (s : OpenState) : SocketOp → List FdCall
  | .open input => if path then openConnectionCalls s input.unix else openCalls s input.resolved
  | .close => s.closeCalls
  | .setSocketFD fd => s.closeCalls ++ adopted fd
  | .elsewhere fd => [.opened fd]

/-- The calls from here on, those of `~Socket` included. -/
def historyCalls (path : Bool) : OpenState → List SocketOp → List FdCall
  | s, [] => s.closeCalls
  | s, op :: ops => op.calls path s ++ historyCalls path (op.apply path s) ops

/-- The calls in the life of a socket, whose constructor has been given a descriptor or none. -/
def lifeCalls (path : Bool) (given : Option Nat) (ops : List SocketOp) : List FdCall :=
  adopted given ++ historyCalls path ⟨given, fun _ => none⟩ ops

/-! ## What an operation does with its descriptors -/

theorem connectTo_socket (s : OpenState) (address : Nat) :
    (s.connectTo address).socket = s.socket := by
  obtain ⟨socket, peers⟩ := s
  cases socket <;> rfl

theorem create_socket (s : OpenState) (fd : Option Nat) : (s.create fd).socket = fd := by
  cases fd <;> rfl

theorem close_socket (s : OpenState) : s.close.socket = none := by
  obtain ⟨peers, eq⟩ := close_closed s
  rw [eq]

theorem isOpen_of_none {s : OpenState} (closed : s.socket = none) : ¬ s.isOpen = true := by
  rw [OpenState.isOpen, closed]
  exact Bool.false_ne_true

theorem isOpen_of_some {s : OpenState} {fd : Nat} (opened : s.socket = some fd) :
    s.isOpen = true := by
  rw [OpenState.isOpen, opened]
  rfl

/-- An attempt leaves its descriptor in `socket_`, also when it throws. -/
theorem openConnection_socket {s : OpenState} (closed : s.socket = none) (c : Candidate) :
    (openConnection s c).1.socket = c.fd := by
  unfold openConnection
  rw [if_neg (isOpen_of_none closed)]
  dsimp only
  split
  · exact create_socket s c.fd
  · dsimp only
    split
    · rw [connectTo_socket]
      split
      · rw [connectTo_socket, create_socket]
      · exact create_socket s c.fd
    · split
      · rw [connectTo_socket, create_socket]
      · exact create_socket s c.fd

theorem unixOpen_socket {s : OpenState} (closed : s.socket = none) (c : Candidate) :
    (unixOpen s c).1.socket = c.fd := by
  unfold unixOpen
  rw [if_neg (isOpen_of_none closed)]
  dsimp only
  split
  · exact create_socket s c.fd
  · dsimp only
    split
    · rw [connectTo_socket, create_socket]
    · exact create_socket s c.fd

/-- What calls come to that end with `held` in `socket_`. -/
structure Retains (t : Table Nat) (calls : List FdCall) (held : Option Nat) : Prop where
  closes : Every ClosesOwn t calls
  adopts : Every AdoptsOthers t calls
  holds : Holds held (t.afterAll calls)

section

variable {t : Table Nat}

theorem keeps_created {fd : Option Nat} (none : Holds none t)
    (supplied : Every Supplied t (created fd)) : Retains t (created fd) fd := by
  cases fd with
  | none => exact ⟨trivial, trivial, none⟩
  | some fd => exact ⟨⟨trivial, trivial⟩, ⟨trivial, trivial⟩, holds_update none⟩

theorem keeps_release {held : Option Nat} (h : Holds held t) : Retains t (release held) none := by
  refine ⟨every_release h, ?_, holds_release h⟩
  cases held with
  | none => trivial
  | some fd => exact ⟨trivial, trivial⟩

theorem Retains.append {xs ys : List FdCall} {held held' : Option Nat} (h : Retains t xs held)
    (later : Retains (t.afterAll xs) ys held') : Retains t (xs ++ ys) held' := by
  refine ⟨(every_append xs ys).mpr ⟨h.closes, later.closes⟩,
    (every_append xs ys).mpr ⟨h.adopts, later.adopts⟩, ?_⟩
  rw [afterAll_append]
  exact later.holds

theorem keeps_nothing {held : Option Nat} (h : Holds held t) : Retains t [] held :=
  ⟨trivial, trivial, h⟩

theorem tryAddresses_keeps (candidates : List Candidate) {s : OpenState} (closed : s.socket = none)
    (h : Holds none t) (supplied : Every Supplied t (tryAddressesCalls candidates s)) :
    Retains t (tryAddressesCalls candidates s) (tryAddresses candidates s).1.socket := by
  induction candidates generalizing t s with
  | nil =>
    rw [tryAddressesCalls, tryAddresses, closed]
    exact keeps_nothing h
  | cons c rest ih =>
    have own := openConnection_socket closed c
    have calls : openConnectionCalls s c = created c.fd := if_neg (isOpen_of_none closed)
    rw [tryAddressesCalls] at supplied ⊢
    rw [tryAddresses]
    rw [calls] at supplied ⊢
    obtain ⟨first, supplied⟩ := (every_append _ _).mp supplied
    have attempt := keeps_created h first
    cases result : openConnection s c with
    | mk s' raises =>
      rw [result] at own supplied
      dsimp only at own supplied ⊢
      cases raises with
      | false =>
        rw [List.append_nil]
        dsimp only
        rw [own]
        exact attempt
      | true =>
        dsimp only at supplied ⊢
        have closing : Retains (t.afterAll (created c.fd)) s'.closeCalls none := by
          unfold OpenState.closeCalls
          rw [own]
          exact keeps_release attempt.holds
        refine attempt.append ?_
        by_cases last : rest.isEmpty = true
        · rw [if_pos last, if_pos last, List.append_nil]
          dsimp only
          rw [close_socket]
          exact closing
        · rw [if_neg last] at supplied ⊢
          rw [if_neg last]
          obtain ⟨-, supplied⟩ := (every_append _ _).mp supplied
          exact closing.append (ih (close_socket s') closing.holds supplied)

theorem openCalls_keeps {s : OpenState} (h : Holds s.socket t) (resolved : Option (List Candidate))
    (supplied : Every Supplied t (openCalls s resolved)) :
    Retains t (openCalls s resolved) (openSocket s resolved).1.socket := by
  unfold openCalls openSocket localOpen at *
  by_cases opened : s.isOpen = true
  · rw [if_pos opened, if_pos opened]
    exact keeps_nothing h
  · rw [if_neg opened] at supplied
    rw [if_neg opened, if_neg opened, if_neg opened]
    have closed : s.socket = none := Option.not_isSome_iff_eq_none.mp opened
    rw [closed] at h
    cases resolved with
    | none =>
      rw [tryAddresses, close_socket]
      unfold OpenState.closeCalls
      rw [closed]
      exact keeps_release h
    | some candidates => exact tryAddresses_keeps candidates closed h supplied

theorem unixCalls_keeps {s : OpenState} (h : Holds s.socket t) (c : Candidate)
    (supplied : Every Supplied t (openConnectionCalls s c)) :
    Retains t (openConnectionCalls s c) (unixOpen s c).1.socket := by
  unfold openConnectionCalls at *
  by_cases opened : s.isOpen = true
  · rw [if_pos opened]
    unfold unixOpen
    rw [if_pos opened]
    exact keeps_nothing h
  · rw [if_neg opened] at supplied ⊢
    have closed : s.socket = none := Option.not_isSome_iff_eq_none.mp opened
    rw [unixOpen_socket closed c]
    rw [closed] at h
    exact keeps_created h supplied

theorem keeps_adopted {fd : Option Nat} (none : Holds none t)
    (others : Every AdoptsOthers t (adopted fd)) : Retains t (adopted fd) fd := by
  cases fd with
  | none => exact keeps_nothing none
  | some fd => exact ⟨⟨trivial, trivial⟩, others, holds_adopted none others.1⟩

/-- An operation that adopts in order keeps custody of what is in `socket_`. -/
theorem SocketOp.keeps (path : Bool) {s : OpenState} (h : Holds s.socket t) (op : SocketOp)
    (supplied : Every Supplied t (op.calls path s))
    (others : Every AdoptsOthers t (op.calls path s)) :
    Retains t (op.calls path s) (op.apply path s).socket := by
  cases op with
  | «open» input =>
    cases path with
    | true => exact unixCalls_keeps h input.unix supplied
    | false => exact openCalls_keeps h input.resolved supplied
  | close =>
    show Retains t (release s.socket) s.close.socket
    rw [close_socket]
    exact keeps_release h
  | setSocketFD fd =>
    have closing : Retains t s.closeCalls none := keeps_release h
    have adopting := ((every_append s.closeCalls (adopted fd)).mp others).2
    exact closing.append (keeps_adopted closing.holds adopting)
  | elsewhere fd => exact ⟨⟨trivial, trivial⟩, ⟨trivial, trivial⟩, holds_opened h supplied.1⟩

theorem stale_of_adopted {fd : Option Nat} (none : Holds none t)
    (nobody : ¬ Every AdoptsOthers t (adopted fd)) : Stale fd (t.afterAll (adopted fd)) := by
  cases fd with
  | none => exact absurd trivial nobody
  | some fd => exact stale_adopted none fun others => nobody ⟨others, trivial⟩

/-- Only `SetSocketFD` adopts, and what it then has is not its own. -/
theorem SocketOp.goes_stale (path : Bool) {s : OpenState} (h : Holds s.socket t) (op : SocketOp)
    (supplied : Every Supplied t (op.calls path s))
    (nobody : ¬ Every AdoptsOthers t (op.calls path s)) :
    Stale (op.apply path s).socket (t.afterAll (op.calls path s)) := by
  cases op with
  | «open» input =>
    cases path with
    | true => exact absurd (unixCalls_keeps h input.unix supplied).adopts nobody
    | false => exact absurd (openCalls_keeps h input.resolved supplied).adopts nobody
  | close => exact absurd (keeps_release h).adopts nobody
  | setSocketFD fd =>
    have closing : Retains t s.closeCalls none := keeps_release h
    show Stale fd (t.afterAll (s.closeCalls ++ adopted fd))
    rw [afterAll_append]
    apply stale_of_adopted closing.holds
    exact fun others => nobody ((every_append _ _).mpr ⟨closing.adopts, others⟩)
  | elsewhere => exact absurd ⟨trivial, trivial⟩ nobody

/-- A descriptor that is not its own stays in `socket_` until it is closed. -/
theorem SocketOp.stays_stale (path : Bool) {s : OpenState} (h : Stale s.socket t) (op : SocketOp) :
    ¬ Every ClosesOwn t (op.calls path s) ∨
      Stale (op.apply path s).socket (t.afterAll (op.calls path s)) := by
  have opened : s.isOpen = true := by
    obtain ⟨fd, mine, -⟩ := h
    exact isOpen_of_some mine
  cases op with
  | «open» input =>
    right
    cases path with
    | true =>
      show Stale (unixOpen s input.unix).1.socket (t.afterAll (openConnectionCalls s input.unix))
      rw [unixOpen, if_pos opened, openConnectionCalls, if_pos opened]
      exact h
    | false =>
      show Stale (openSocket s input.resolved).1.socket (t.afterAll (openCalls s input.resolved))
      unfold openSocket openCalls
      rw [if_pos opened, if_pos opened]
      exact h
  | close => exact .inl (stale_release h)
  | setSocketFD fd => exact .inl fun closes => stale_release h ((every_append _ _).mp closes).1
  | elsewhere fd => exact .inr (stale_opened h fd)

/-! ## Histories -/

theorem stale_history (path : Bool) (ops : List SocketOp) {s : OpenState} (h : Stale s.socket t) :
    ¬ Every ClosesOwn t (historyCalls path s ops) := by
  induction ops generalizing t s with
  | nil => exact stale_release h
  | cons op ops ih =>
    intro closes
    obtain ⟨now, later⟩ := (every_append _ _).mp closes
    exact ih ((op.stays_stale path h).resolve_left (not_not.mpr now)) later

theorem history_keeps (path : Bool) (ops : List SocketOp) {s : OpenState} (h : Holds s.socket t)
    (supplied : Every Supplied t (historyCalls path s ops))
    (others : Every AdoptsOthers t (historyCalls path s ops)) :
    Retains t (historyCalls path s ops) none := by
  induction ops generalizing t s with
  | nil => exact keeps_release h
  | cons op ops ih =>
    obtain ⟨supplied, suppliedLater⟩ := (every_append _ _).mp supplied
    obtain ⟨others, othersLater⟩ := (every_append _ _).mp others
    have now := op.keeps path h supplied others
    exact now.append (ih now.holds suppliedLater othersLater)

theorem history_stale (path : Bool) (ops : List SocketOp) {s : OpenState} (h : Holds s.socket t)
    (supplied : Every Supplied t (historyCalls path s ops))
    (closes : Every ClosesOwn t (historyCalls path s ops)) :
    Every AdoptsOthers t (historyCalls path s ops) := by
  induction ops generalizing t s with
  | nil => exact (keeps_release h).adopts
  | cons op ops ih =>
    obtain ⟨supplied, suppliedLater⟩ := (every_append _ _).mp supplied
    obtain ⟨-, closesLater⟩ := (every_append _ _).mp closes
    refine (every_append _ _).mpr ?_
    by_cases others : Every AdoptsOthers t (op.calls path s)
    · exact ⟨others, ih (op.keeps path h supplied others).holds suppliedLater closesLater⟩
    · exact absurd closesLater (stale_history path ops (op.goes_stale path h supplied others))

end

/-- Whatever is called on a socket, and however its attempts end, it closes nothing but its own
descriptors and has none left when it is destroyed, if and only if each descriptor that its
constructor and `SetSocketFD` are given belongs to other code. -/
theorem descriptors_closed_once_iff (path : Bool) (given : Option Nat) (ops : List SocketOp)
    (t : Table Nat) (unowned : ∀ fd, t fd ≠ .own)
    (supplied : Every Supplied t (lifeCalls path given ops)) :
    (Every ClosesOwn t (lifeCalls path given ops) ∧
        ∀ fd, t.afterAll (lifeCalls path given ops) fd ≠ .own) ↔
      Every AdoptsOthers t (lifeCalls path given ops) := by
  have holds : Holds none t := fun fd => ⟨fun own => absurd own (unowned fd), nofun⟩
  obtain ⟨-, later⟩ := (every_append _ _).mp supplied
  constructor
  · rintro ⟨closes, -⟩
    obtain ⟨-, closes⟩ := (every_append _ _).mp closes
    refine (every_append _ _).mpr ?_
    by_cases others : Every AdoptsOthers t (adopted given)
    · have made := keeps_adopted holds others
      exact ⟨others, history_stale path ops made.holds later closes⟩
    · exact absurd closes (stale_history path ops (stale_of_adopted holds others))
  · intro others
    obtain ⟨first, others⟩ := (every_append _ _).mp others
    have made := keeps_adopted holds first
    have whole := made.append (history_keeps path ops made.holds later others)
    exact ⟨whole.closes, fun fd own => absurd ((whole.holds fd).mp own) nofun⟩

/-- The first attempt throws, and the second gets the same descriptor. -/
def throwsThenConnects : OpenInput where
  resolved := some
    [{ address := 1, fd := some 3, connect := .connected, poll := .ready 0, setupThrows := true },
      { address := 2, fd := some 3, connect := .connected, poll := .ready 0 }]
  unix := { address := 0, fd := none, connect := .connected, poll := .timedOut }

/-- A server's descriptor replaces the one that has been connected. -/
def openAndReplace : List SocketOp :=
  [.open throwsThenConnects, .elsewhere 9, .setSocketFD (some 9), .open throwsThenConnects]

theorem descriptors_closed_once_openAndReplace :
    lifeCalls false none openAndReplace =
        [.obtained 3, .closed 3, .obtained 3, .opened 9, .closed 3, .adopted 9, .closed 9] ∧
      Every ClosesOwn (fun _ => .free) (lifeCalls false none openAndReplace) ∧
      ∀ fd, Table.afterAll (fun _ => .free) (lifeCalls false none openAndReplace) fd ≠ .own :=
  ⟨by decide,
    (descriptors_closed_once_iff false none openAndReplace (fun _ => .free) (fun _ => nofun)
      (by decide)).mpr (by decide)⟩

end Threads.Net
