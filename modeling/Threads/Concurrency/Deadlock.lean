import Threads.Concurrency.Discipline
import Threads.Concurrency.Progress

/-!
# Guards that do not nest

Where no guard stands in the scope of another, and code from outside calls procedures only
while its thread owns nothing, nobody waits for a mutex while it owns one. Whoever owns a
mutex can then go on, and the mutexes alone never bring the threads to a halt.
-/

namespace Threads.Concurrency.Procedures

variable {Mutex Cond Data Local Env Op : Type}
variable (P : Procedures Mutex Cond Data Local Env Op)

/-- A check that no guard of the command stands in the scope of another. -/
def flat (inside : Bool) : Cmd Mutex Cond Data Local Env Op → Bool
  | .seq a b => flat inside a && flat inside b
  | .ite _ a b => flat inside a && flat inside b
  | .loop _ body => flat inside body
  | .guard _ _ without body => !inside && (flat false without && flat true body)
  | .attempt body => flat inside body
  | _ => true

/-- At most one scope of the thread is open, and what it still has to do in there has no guard. -/
inductive FlatStack : List (Frame Mutex Cond Data Local Env Op) → List Mutex → Prop
  | idle : FlatStack [] []
  | run {c fs held} : flat (!held.isEmpty) c = true → FlatStack fs held →
      FlatStack (.run c :: fs) held
  | unlock {m fs} : FlatStack fs [] → FlatStack (.unlock m :: fs) [m]
  | caught {fs held} : FlatStack fs held → FlatStack (.catch :: fs) held
  | ret {op fs base l} : FlatStack fs base → FlatStack (.ret op base l :: fs) base

def crashes : P.Thread → Bool
  | ⟨.run .crash :: _, false, _, .awake, _⟩ => true
  | _ => false

/-- The process is about to die. -/
def AboutToCrash (t : P.Thread) : Prop := P.crashes t = true

instance : DecidablePred P.AboutToCrash := fun _ => inferInstanceAs (Decidable (_ = true))

section Flat

variable {P}

theorem FlatStack.top {c : Cmd Mutex Cond Data Local Env Op} {held : List Mutex}
    {fs : List (Frame Mutex Cond Data Local Env Op)} (h : FlatStack (.run c :: fs) held) :
    flat (!held.isEmpty) c = true ∧ FlatStack fs held := by
  cases h with
  | run here rest => exact ⟨here, rest⟩

theorem FlatStack.length_le {held : List Mutex} {fs : List (Frame Mutex Cond Data Local Env Op)}
    (h : FlatStack fs held) : held.length ≤ 1 := by
  induction h with
  | idle => exact Nat.zero_le 1
  | unlock => exact Nat.le_refl 1
  | run _ _ ih | caught _ ih | ret _ ih => exact ih

/-- A guard is reached with no scope open. -/
theorem FlatStack.of_guard {m : Mutex} {tries : Local → Bool} {held : List Mutex}
    {without body : Cmd Mutex Cond Data Local Env Op}
    {fs : List (Frame Mutex Cond Data Local Env Op)}
    (h : FlatStack (.run (.guard m tries without body) :: fs) held) :
    held = [] ∧ flat false without = true ∧ flat true body = true ∧ FlatStack fs [] := by
  obtain ⟨here, rest⟩ := h.top
  obtain ⟨outside, scopes⟩ := Bool.and_eq_true_iff.mp here
  obtain ⟨first, second⟩ := Bool.and_eq_true_iff.mp scopes
  obtain rfl : held = [] := by simpa using outside
  exact ⟨rfl, first, second, rest⟩

variable [DecidableEq Mutex] {bare : (Data → Local → Bool) → Cond → Prop}

theorem flatStack_of_step (all : ∀ op, flat false (P.body op) = true) {s : Locks Mutex Data}
    {t : P.Thread} {a : LockAct Env Op} {o : P.Effect} (sound : P.Sound bare t)
    (h : FlatStack t.frames t.held) (free : ∀ op, a = .call op → P.owned t = [])
    (step : P.ThreadStep s t a o) : FlatStack o.self.frames o.self.held := by
  cases step with
  | calls =>
    cases h with
    | idle => exact .run (all _) (.ret .idle)
  | callsInside =>
    obtain rfl : _ = [] := free _ rfl
    exact .run (all _) (.ret h)
  | skip | act | signals | spawns | foreign | foreignRaises | raises | unwinds | leaves | waits =>
    exact h.top.2
  | seq =>
    obtain ⟨here, rest⟩ := h.top
    obtain ⟨first, second⟩ := Bool.and_eq_true_iff.mp here
    exact .run first (.run second rest)
  | ite =>
    obtain ⟨here, rest⟩ := h.top
    obtain ⟨yes, no⟩ := Bool.and_eq_true_iff.mp here
    refine .run ?_ rest
    split <;> assumption
  | repeats =>
    have body := h.top.1
    exact .run body h
  | locks =>
    obtain ⟨rfl, without, body, rest⟩ := h.of_guard
    exact .run body (.unlock rest)
  | givesUp =>
    obtain ⟨rfl, without, body, rest⟩ := h.of_guard
    exact .run without rest
  | resumes =>
    have owned := sound.waiting _ rfl
    rw [reacquire, if_pos owned]
    exact h
  | tries =>
    obtain ⟨here, rest⟩ := h.top
    exact .run here (.caught rest)
  | unlocks =>
    cases h with
    | unlock rest =>
      rw [List.erase_cons_head]
      exact rest
  | catches =>
    cases h with
    | caught rest => exact rest
  | returns =>
    dsimp only at h
    cases h with
    | ret rest => exact rest

theorem flatStack_spawned (all : ∀ op, flat false (P.body op) = true) {s : Locks Mutex Data}
    {t : P.Thread} {a : LockAct Env Op} {o : P.Effect} (step : P.ThreadStep s t a o) :
    ∀ u ∈ o.spawned, FlatStack u.frames u.held := by
  cases step with
  | spawns =>
    intro u started
    obtain rfl := List.mem_singleton.mp started
    exact .run (all _) (.ret .idle)
  | _ => exact nofun

/-! ## Who cannot go on -/

theorem owned_length_le {t : P.Thread} (h : FlatStack t.frames t.held) :
    (P.owned t).length ≤ 1 := by
  unfold owned
  split
  · exact (List.length_erase_le).trans h.length_le
  · exact h.length_le

theorem block_woken (s : Locks Mutex Data) (frames : List (Frame Mutex Cond Data Local Env Op))
    (raised : Bool) (held : List Mutex) (k : Cond) (l : Local) (e : Env) :
    P.block s ⟨frames, raised, held, .woken k, l⟩ (.go e) = P.resume s frames held k l false := by
  cases frames with
  | nil => cases raised <;> rfl
  | cons frame fs =>
    cases frame with
    | run c => cases raised <;> cases c <;> rfl
    | unlock | «catch» | ret => rfl

theorem locked_of_resume {s : Locks Mutex Data} {held : List Mutex} {k : Cond} {l : Local}
    {frames : List (Frame Mutex Cond Data Local Env Op)}
    (blocked : P.resume s frames held k l false = none) : s.locked ≠ [] := by
  unfold resume at blocked
  split at blocked
  · exact List.ne_nil_of_mem ‹_›
  · cases blocked

/-- A command on top of a thread stops it only as a guard or as a crash. -/
theorem blocked_command {s : Locks Mutex Data} {raised : Bool} {held : List Mutex} {l : Local}
    {e : Env} {c : Cmd Mutex Cond Data Local Env Op}
    {fs : List (Frame Mutex Cond Data Local Env Op)} (h : FlatStack (.run c :: fs) held)
    (blocked : P.block s ⟨.run c :: fs, raised, held, .awake, l⟩ (.go e) = none) :
    P.AboutToCrash ⟨.run c :: fs, raised, held, .awake, l⟩ ∨ held = [] ∧ s.locked ≠ [] := by
  cases raised with
  | true => cases c <;> cases blocked
  | false =>
    cases c with
    | crash => exact .inl rfl
    | guard m tries without body =>
      have taken : (if m ∈ s.locked then none else some _) = none := blocked
      split at taken
      · exact .inr ⟨h.of_guard.1, List.ne_nil_of_mem ‹_›⟩
      · cases taken
    | loop p body =>
      have tested : (if p s.data l then some _ else some _) = none := blocked
      split at tested <;> cases tested
    | _ => cases blocked

/-- What stops a thread: it is about to crash, or it owns nothing, and has ended its calls, has
parked or waits for a mutex. -/
theorem blocked_cases {s : Locks Mutex Data} {t : P.Thread} {e : Env} (sound : P.Sound bare t)
    (h : FlatStack t.frames t.held) (blocked : P.block s t (.go e) = none) :
    P.AboutToCrash t ∨
      P.owned t = [] ∧ (t.frames = [] ∨ (∃ k, t.waiting = .parked k) ∨ s.locked ≠ []) := by
  obtain ⟨frames, raised, held, waiting, l⟩ := t
  have given {k : Cond} (owns : P.mutexOf k ∈ held) : held.erase (P.mutexOf k) = [] := by
    have fewer := List.length_erase_of_mem owns
    have one := h.length_le
    exact List.length_eq_zero_iff.mp (by dsimp only at one; omega)
  cases waiting with
  | parked k => exact .inr ⟨given (sound.waiting k rfl), .inr (.inl ⟨k, rfl⟩)⟩
  | woken k =>
    rw [block_woken] at blocked
    exact .inr ⟨given (sound.waiting k rfl), .inr (.inr (locked_of_resume blocked))⟩
  | awake =>
    cases frames with
    | nil => exact .inr ⟨sound.balanced.held_eq_nil, .inl rfl⟩
    | cons frame fs =>
      cases frame with
      | unlock | «catch» | ret => cases blocked
      | run c =>
        rcases blocked_command h blocked with crash | ⟨none, taken⟩
        · exact .inl crash
        · exact .inr ⟨none, .inr (.inr taken)⟩

end Flat

/-! ## Runs -/

variable [DecidableEq Mutex]

/-- Nobody calls a procedure while it owns a mutex. -/
def CallsFree (c : Config (Locks Mutex Data) P.Thread (Op × Bool)) : Move (LockAct Env Op) → Prop
  | .run i (.call _) _ => ∀ t ∈ c.threads[i]?, P.owned t = []
  | _ => True

/-- The threads go on with what they have called. -/
def GoesOn (_ : Config (Locks Mutex Data) P.Thread (Op × Bool)) : Move (LockAct Env Op) → Prop
  | .run _ (.go _) _ => True
  | _ => False

def FlatAll (c : Config (Locks Mutex Data) P.Thread (Op × Bool)) : Prop :=
  ∀ t ∈ c.threads, FlatStack t.frames t.held

variable {P} {bare : (Data → Local → Bool) → Cond → Prop}

omit [DecidableEq Mutex] in
theorem flatAll_idle (data : Data) (l : Local) (n : Nat) : FlatAll P (P.idle data l n) := by
  intro t mem
  rw [List.eq_of_mem_replicate mem]
  exact .idle

variable [DecidableEq Cond] {c c' : Config (Locks Mutex Data) P.Thread (Op × Bool)}

theorem flatAll_step (all : ∀ op, flat false (P.body op) = true) {mv : Move (LockAct Env Op)}
    (sound : SoundAll bare c) (h : FlatAll P c) (free : CallsFree P c mv)
    (step : P.program.Step c mv c') : FlatAll P c' := by
  have woken (t : P.Thread) (flat : FlatStack t.frames t.held) :
      FlatStack t.wake.frames t.wake.held := by
    obtain ⟨frames, raised, held, waiting, l⟩ := t
    cases waiting <;> exact flat
  cases step with
  | spurious here waits =>
    intro u hu
    rcases List.mem_or_eq_of_mem_set hu with hu | rfl
    · exact h u hu
    · exact woken _ (h _ (List.mem_of_getElem? here))
  | @run i a cs t o ts here fires delivered =>
    have step := P.threadStep_of_block fires
    have mem := List.mem_of_getElem? here
    refine P.program.forall_run (fun t => FlatStack t.frames t.held) (fun t _ => woken t)
      (P.program.deliver_woken delivered) h o.self ?_ o.spawned (flatStack_spawned all step) i
    refine flatStack_of_step all (sound.sound t mem) (h t mem) ?_ step
    rintro op rfl
    exact free t here

omit [DecidableEq Cond] in
/-- Whoever owns a mutex can go on. -/
theorem owner_goes_on (sound : SoundAll bare c) (h : FlatAll P c) {t : P.Thread}
    (mem : t ∈ c.threads) (owns : P.owned t ≠ []) :
    P.AboutToCrash t ∨ ∀ e, (P.block c.shared t (.go e)).isSome = true := by
  by_cases dies : P.AboutToCrash t
  · exact .inl dies
  · refine .inr fun e => ?_
    cases blocked : P.block c.shared t (.go e) with
    | some => rfl
    | none =>
      rcases blocked_cases (sound.sound t mem) (h t mem) blocked with crash | ⟨none, _⟩
      · exact absurd crash dies
      · exact absurd none owns

/-- When nobody can go on, no mutex is locked: all threads have ended their calls or have parked. -/
theorem halt_cases (sound : SoundAll bare c) (h : FlatAll P c) (e : Env)
    (rests : P.program.Resting (GoesOn P) c) (alive : ∀ t ∈ c.threads, ¬ P.AboutToCrash t) :
    c.shared.locked = [] ∧ ∀ t ∈ c.threads, t.frames = [] ∨ ∃ k, t.waiting = .parked k := by
  have cases {t : P.Thread} (mem : t ∈ c.threads) : P.owned t = [] ∧
      (t.frames = [] ∨ (∃ k, t.waiting = .parked k) ∨ c.shared.locked ≠ []) := by
    obtain ⟨i, here⟩ := List.mem_iff_getElem?.mp mem
    have blocked := rests.blocked here (a := .go e) fun _ => trivial
    rcases blocked_cases (sound.sound t mem) (h t mem) blocked with crash | rest
    · exact absurd crash (alive t mem)
    · exact rest
  have free : c.shared.locked = [] := by
    apply List.eq_nil_iff_forall_not_mem.mpr
    intro m locked
    have none : total (fun t => (P.owned t).count m) c.threads = 0 :=
      total_eq_zero.mpr fun t mem => by rw [(cases mem).1, List.count_nil]
    rw [← sound.locked m] at none
    exact List.count_eq_zero.mp none locked
  refine ⟨free, fun t mem => ?_⟩
  rcases (cases mem).2 with ended | parked | locked
  · exact .inl ended
  · exact .inr parked
  · exact absurd free locked

end Threads.Concurrency.Procedures
