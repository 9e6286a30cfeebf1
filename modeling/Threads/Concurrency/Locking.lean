import Threads.Concurrency.Run

/-!
# Scoped locks

A language for what matters about locks: guards that release their mutex when
their scope is left in whatever way, waits that give a mutex up and take it back,
exceptions, and code from outside that may call any procedure. A thread is a
stack of frames; every other statement is a function on the shared data and the
locals of the call.
-/

namespace Threads.Concurrency

inductive Cmd (Mutex Cond Data Local Env Op : Type) where
  | skip
  | act (f : Env → Data → Local → Data × Local)
  | seq (first rest : Cmd Mutex Cond Data Local Env Op)
  | ite (p : Data → Local → Bool) (yes no : Cmd Mutex Cond Data Local Env Op)
  | loop (p : Data → Local → Bool) (body : Cmd Mutex Cond Data Local Env Op)
  /-- The scope of a guard on `m`. A guard that `tries` may come up without the mutex. -/
  | guard (m : Mutex) (tries : Local → Bool) (without body : Cmd Mutex Cond Data Local Env Op)
  | wait (k : Cond)
  | signal (f : Data → Local → List (Signal Cond))
  /-- Start a thread that calls `op`. -/
  | spawn (start : Local → Local) (op : Op)
  /-- Code from outside: it may call procedures, and it may raise. -/
  | foreign
  | raise
  /-- `try` with a `catch (...)` that does nothing. -/
  | attempt (body : Cmd Mutex Cond Data Local Env Op)
  /-- The process dies here. -/
  | crash

inductive Frame (Mutex Cond Data Local Env Op : Type) where
  | run (c : Cmd Mutex Cond Data Local Env Op)
  /-- The end of the scope of a guard. -/
  | unlock (m : Mutex)
  | catch
  /-- The end of a call: what the thread owned at its beginning, and the caller's locals. -/
  | ret (op : Op) (base : List Mutex) (locals : Local)

inductive Waiting (Cond : Type) where
  | awake
  | parked (k : Cond)
  | woken (k : Cond)

/-- A thread. The mutex of the monitor it waits on stays in `held`, although the
thread has given it up for the time being. -/
structure Stack (Mutex Cond Data Local Env Op : Type) where
  frames : List (Frame Mutex Cond Data Local Env Op)
  raised : Bool
  held : List Mutex
  waiting : Waiting Cond
  locals : Local

structure Locks (Mutex Data : Type) where
  locked : List Mutex := []
  data : Data

inductive LockAct (Env Op : Type) where
  | call (op : Op)
  | go (e : Env)
  /-- A trying guard comes up empty, code from outside raises, or a wait does. -/
  | fail

/-- `enter` makes the locals of a call out of those of its caller. -/
structure Procedures (Mutex Cond Data Local Env Op : Type) where
  mutexOf : Cond → Mutex
  enter : Local → Local
  body : Op → Cmd Mutex Cond Data Local Env Op

variable {Mutex Cond Data Local Env Op : Type}

namespace Cmd

def block : List (Cmd Mutex Cond Data Local Env Op) → Cmd Mutex Cond Data Local Env Op
  | [] => .skip
  | c :: cs => .seq c (block cs)

/-- The scope of a guard that waits for its mutex. -/
def synchronized (m : Mutex) (cs : List (Cmd Mutex Cond Data Local Env Op)) :
    Cmd Mutex Cond Data Local Env Op :=
  .guard m (fun _ => false) .skip (block cs)

def whenever (p : Data → Local → Bool) (cs : List (Cmd Mutex Cond Data Local Env Op)) :
    Cmd Mutex Cond Data Local Env Op :=
  .ite p (block cs) .skip

end Cmd

def Waiting.cond : Waiting Cond → Option Cond
  | .awake => none
  | .parked k | .woken k => some k

namespace Stack

def waitsOn (t : Stack Mutex Cond Data Local Env Op) : Option Cond :=
  match t.waiting with
  | .parked k => some k
  | _ => none

def wake (t : Stack Mutex Cond Data Local Env Op) : Stack Mutex Cond Data Local Env Op :=
  match t.waiting with
  | .parked k => { t with waiting := .woken k }
  | _ => t

theorem wake_awake (t : Stack Mutex Cond Data Local Env Op) : t.wake.waitsOn = none := by
  obtain ⟨frames, raised, held, waiting, locals⟩ := t
  cases waiting <;> rfl

end Stack

namespace Procedures

abbrev Thread (_ : Procedures Mutex Cond Data Local Env Op) := Stack Mutex Cond Data Local Env Op

/-- The log tells which calls have ended, and whether they raised. -/
abbrev Effect (P : Procedures Mutex Cond Data Local Env Op) :=
  Outcome (Locks Mutex Data) P.Thread P.Thread (Op × Bool) Cond

variable [DecidableEq Mutex] (P : Procedures Mutex Cond Data Local Env Op)

/-- Giving up the mutex of `k` leaves it alone unless the thread owns it. -/
def park (s : Locks Mutex Data) (held : List Mutex) (k : Cond) : Locks Mutex Data :=
  if P.mutexOf k ∈ held then { s with locked := s.locked.erase (P.mutexOf k) } else s

/-- What a thread owns when it comes back from a wait on `k`. -/
def reacquire (held : List Mutex) (k : Cond) : List Mutex :=
  if P.mutexOf k ∈ held then held else P.mutexOf k :: held

/-- Execute the command on top of the frames `fs`. -/
def command (s : Locks Mutex Data) (held : List Mutex) (l : Local) (e : Env)
    (fs : List (Frame Mutex Cond Data Local Env Op)) :
    Cmd Mutex Cond Data Local Env Op → Option P.Effect
  | .skip | .foreign => some { shared := s, self := ⟨fs, false, held, .awake, l⟩ }
  | .act f =>
    some {
      shared := { s with data := (f e s.data l).1 }
      self := ⟨fs, false, held, .awake, (f e s.data l).2⟩ }
  | .seq a b => some { shared := s, self := ⟨.run a :: .run b :: fs, false, held, .awake, l⟩ }
  | .ite p a b =>
    some { shared := s, self := ⟨.run (if p s.data l then a else b) :: fs, false, held, .awake, l⟩ }
  | .loop p body =>
    if p s.data l then
      some { shared := s, self := ⟨.run body :: .run (.loop p body) :: fs, false, held, .awake, l⟩ }
    else some { shared := s, self := ⟨fs, false, held, .awake, l⟩ }
  | .guard m _ _ body =>
    if m ∈ s.locked then none
    else some {
      shared := { s with locked := m :: s.locked }
      self := ⟨.run body :: .unlock m :: fs, false, m :: held, .awake, l⟩ }
  | .wait k => some { shared := P.park s held k, self := ⟨fs, false, held, .parked k, l⟩ }
  | .signal f =>
    some { shared := s, self := ⟨fs, false, held, .awake, l⟩, signals := f s.data l }
  | .spawn start op =>
    some {
      shared := s
      self := ⟨fs, false, held, .awake, l⟩
      spawned := [⟨[.run (P.body op), .ret op [] l], false, [], .awake, start l⟩] }
  | .raise => some { shared := s, self := ⟨fs, true, held, .awake, l⟩ }
  | .attempt body =>
    some { shared := s, self := ⟨.run body :: .catch :: fs, false, held, .awake, l⟩ }
  | .crash => none

/-- A wait is over, with or without an exception, once its mutex is free again. -/
def resume (s : Locks Mutex Data) (frames : List (Frame Mutex Cond Data Local Env Op))
    (held : List Mutex) (k : Cond) (l : Local) (raises : Bool) : Option P.Effect :=
  if P.mutexOf k ∈ s.locked then none
  else some {
    shared := { s with locked := P.mutexOf k :: s.locked }
    self := ⟨frames, raises, P.reacquire held k, .awake, l⟩ }

def block (s : Locks Mutex Data) : P.Thread → LockAct Env Op → Option P.Effect
  | ⟨[], false, held, .awake, l⟩, .call op =>
    some {
      shared := s
      self := ⟨[.run (P.body op), .ret op held l], false, held, .awake, P.enter l⟩ }
  | ⟨.run .foreign :: fs, false, held, .awake, l⟩, .call op =>
    some {
      shared := s
      self := ⟨.run (P.body op) :: .ret op held l :: .run .foreign :: fs, false, held, .awake,
        P.enter l⟩ }
  | ⟨.run c :: fs, false, held, .awake, l⟩, .go e => P.command s held l e fs c
  | ⟨.run (.guard _ tries without _) :: fs, false, held, .awake, l⟩, .fail =>
    if tries l then some { shared := s, self := ⟨.run without :: fs, false, held, .awake, l⟩ }
    else none
  | ⟨.run .foreign :: fs, false, held, .awake, l⟩, .fail =>
    some { shared := s, self := ⟨fs, true, held, .awake, l⟩ }
  -- an exception on its way out
  | ⟨.run _ :: fs, true, held, .awake, l⟩, .go _ =>
    some { shared := s, self := ⟨fs, true, held, .awake, l⟩ }
  | ⟨.unlock m :: fs, raised, held, .awake, l⟩, .go _ =>
    some {
      shared := { s with locked := s.locked.erase m }
      self := ⟨fs, raised, held.erase m, .awake, l⟩ }
  | ⟨.catch :: fs, _, held, .awake, l⟩, .go _ =>
    some { shared := s, self := ⟨fs, false, held, .awake, l⟩ }
  | ⟨.ret op _ caller :: fs, raised, held, .awake, _⟩, .go _ =>
    some { shared := s, self := ⟨fs, false, held, .awake, caller⟩, events := [(op, raised)] }
  | ⟨frames, _, held, .woken k, l⟩, .go _ => P.resume s frames held k l false
  | ⟨frames, _, held, .woken k, l⟩, .fail => P.resume s frames held k l true
  | _, _ => none

def program : Program (Locks Mutex Data) P.Thread (LockAct Env Op) (Op × Bool) Cond where
  waitsOn := Stack.waitsOn
  wake := Stack.wake
  wake_awake := Stack.wake_awake
  block := P.block

/-- Threads that have not called anything yet. -/
def idle (data : Data) (locals : Local) (n : Nat) :
    Config (Locks Mutex Data) P.Thread (Op × Bool) where
  shared := { data := data }
  threads := List.replicate n ⟨[], false, [], .awake, locals⟩

/-! ## What a step can do -/

inductive ThreadStep (s : Locks Mutex Data) : P.Thread → LockAct Env Op → P.Effect → Prop
  | calls {op held l} :
      ThreadStep s ⟨[], false, held, .awake, l⟩ (.call op)
        { shared := s
          self := ⟨[.run (P.body op), .ret op held l], false, held, .awake, P.enter l⟩ }
  | callsInside {op fs held l} :
      ThreadStep s ⟨.run .foreign :: fs, false, held, .awake, l⟩ (.call op)
        { shared := s
          self := ⟨.run (P.body op) :: .ret op held l :: .run .foreign :: fs, false, held, .awake,
            P.enter l⟩ }
  | skip {fs held l e} :
      ThreadStep s ⟨.run .skip :: fs, false, held, .awake, l⟩ (.go e)
        { shared := s, self := ⟨fs, false, held, .awake, l⟩ }
  | act {f fs held l e} :
      ThreadStep s ⟨.run (.act f) :: fs, false, held, .awake, l⟩ (.go e)
        { shared := { s with data := (f e s.data l).1 }
          self := ⟨fs, false, held, .awake, (f e s.data l).2⟩ }
  | seq {a b fs held l e} :
      ThreadStep s ⟨.run (.seq a b) :: fs, false, held, .awake, l⟩ (.go e)
        { shared := s, self := ⟨.run a :: .run b :: fs, false, held, .awake, l⟩ }
  | ite {p a b fs held l e} :
      ThreadStep s ⟨.run (.ite p a b) :: fs, false, held, .awake, l⟩ (.go e)
        { shared := s
          self := ⟨.run (if p s.data l then a else b) :: fs, false, held, .awake, l⟩ }
  | repeats {p body fs held l e} (again : p s.data l = true) :
      ThreadStep s ⟨.run (.loop p body) :: fs, false, held, .awake, l⟩ (.go e)
        { shared := s, self := ⟨.run body :: .run (.loop p body) :: fs, false, held, .awake, l⟩ }
  | leaves {p body fs held l e} (done : p s.data l = false) :
      ThreadStep s ⟨.run (.loop p body) :: fs, false, held, .awake, l⟩ (.go e)
        { shared := s, self := ⟨fs, false, held, .awake, l⟩ }
  | locks {m tries without body fs held l e} (free : m ∉ s.locked) :
      ThreadStep s ⟨.run (.guard m tries without body) :: fs, false, held, .awake, l⟩ (.go e)
        { shared := { s with locked := m :: s.locked }
          self := ⟨.run body :: .unlock m :: fs, false, m :: held, .awake, l⟩ }
  | givesUp {m tries without body fs held l} (may : tries l = true) :
      ThreadStep s ⟨.run (.guard m tries without body) :: fs, false, held, .awake, l⟩ .fail
        { shared := s, self := ⟨.run without :: fs, false, held, .awake, l⟩ }
  | waits {k fs held l e} :
      ThreadStep s ⟨.run (.wait k) :: fs, false, held, .awake, l⟩ (.go e)
        { shared := P.park s held k, self := ⟨fs, false, held, .parked k, l⟩ }
  | resumes {frames raised held k l a raises} (free : P.mutexOf k ∉ s.locked) :
      ThreadStep s ⟨frames, raised, held, .woken k, l⟩ a
        { shared := { s with locked := P.mutexOf k :: s.locked }
          self := ⟨frames, raises, P.reacquire held k, .awake, l⟩ }
  | signals {f fs held l e} :
      ThreadStep s ⟨.run (.signal f) :: fs, false, held, .awake, l⟩ (.go e)
        { shared := s, self := ⟨fs, false, held, .awake, l⟩, signals := f s.data l }
  | spawns {start op fs held l e} :
      ThreadStep s ⟨.run (.spawn start op) :: fs, false, held, .awake, l⟩ (.go e)
        { shared := s
          self := ⟨fs, false, held, .awake, l⟩
          spawned := [⟨[.run (P.body op), .ret op [] l], false, [], .awake, start l⟩] }
  | foreign {fs held l e} :
      ThreadStep s ⟨.run .foreign :: fs, false, held, .awake, l⟩ (.go e)
        { shared := s, self := ⟨fs, false, held, .awake, l⟩ }
  | foreignRaises {fs held l} :
      ThreadStep s ⟨.run .foreign :: fs, false, held, .awake, l⟩ .fail
        { shared := s, self := ⟨fs, true, held, .awake, l⟩ }
  | raises {fs held l e} :
      ThreadStep s ⟨.run .raise :: fs, false, held, .awake, l⟩ (.go e)
        { shared := s, self := ⟨fs, true, held, .awake, l⟩ }
  | tries {body fs held l e} :
      ThreadStep s ⟨.run (.attempt body) :: fs, false, held, .awake, l⟩ (.go e)
        { shared := s, self := ⟨.run body :: .catch :: fs, false, held, .awake, l⟩ }
  | unwinds {c fs held l e} :
      ThreadStep s ⟨.run c :: fs, true, held, .awake, l⟩ (.go e)
        { shared := s, self := ⟨fs, true, held, .awake, l⟩ }
  | unlocks {m fs raised held l e} :
      ThreadStep s ⟨.unlock m :: fs, raised, held, .awake, l⟩ (.go e)
        { shared := { s with locked := s.locked.erase m }
          self := ⟨fs, raised, held.erase m, .awake, l⟩ }
  | catches {fs raised held l e} :
      ThreadStep s ⟨.catch :: fs, raised, held, .awake, l⟩ (.go e)
        { shared := s, self := ⟨fs, false, held, .awake, l⟩ }
  | returns {op base fs raised held l caller e} :
      ThreadStep s ⟨.ret op base caller :: fs, raised, held, .awake, l⟩ (.go e)
        { shared := s, self := ⟨fs, false, held, .awake, caller⟩, events := [(op, raised)] }

theorem threadStep_of_command {s : Locks Mutex Data} {held : List Mutex} {l : Local} {e : Env}
    {fs : List (Frame Mutex Cond Data Local Env Op)} {c : Cmd Mutex Cond Data Local Env Op}
    {o : P.Effect} (h : P.command s held l e fs c = some o) :
    P.ThreadStep s ⟨.run c :: fs, false, held, .awake, l⟩ (.go e) o := by
  cases c <;> dsimp only [command] at h
  case loop =>
    split at h
    · obtain rfl := Option.some.inj h
      exact .repeats ‹_›
    · obtain rfl := Option.some.inj h
      exact .leaves (Bool.eq_false_iff.mpr ‹_›)
  case guard =>
    split at h
    · cases h
    · obtain rfl := Option.some.inj h
      exact .locks ‹_›
  case crash => cases h
  all_goals
    obtain rfl := Option.some.inj h
    constructor

theorem threadStep_of_resume {s : Locks Mutex Data}
    {frames : List (Frame Mutex Cond Data Local Env Op)}
    {raised raises : Bool} {held : List Mutex} {k : Cond} {l : Local} {a : LockAct Env Op}
    {o : P.Effect} (h : P.resume s frames held k l raises = some o) :
    P.ThreadStep s ⟨frames, raised, held, .woken k, l⟩ a o := by
  unfold resume at h
  split at h
  · cases h
  · obtain rfl := Option.some.inj h
    exact .resumes ‹_›

theorem threadStep_of_block {s : Locks Mutex Data} {t : P.Thread} {a : LockAct Env Op}
    {o : P.Effect} (h : P.block s t a = some o) : P.ThreadStep s t a o := by
  unfold block at h
  split at h
  case h_3 => exact P.threadStep_of_command h
  case h_4 =>
    split at h
    · obtain rfl := Option.some.inj h
      exact .givesUp ‹_›
    · cases h
  case h_10 | h_11 => exact P.threadStep_of_resume h
  case h_12 => cases h
  all_goals
    obtain rfl := Option.some.inj h
    constructor

end Procedures

end Threads.Concurrency
