import Threads.Concurrency.Locking

/-!
# Lock discipline

A wait is called only by a thread that owns the mutex of its monitor, and a call
ends with its thread owning what it owned when the call began. Scopes give both,
as long as every wait stands in the scope of a guard on its mutex.
-/

namespace Threads.Concurrency.Procedures

variable {Mutex Cond Data Local Env Op : Type}
variable (P : Procedures Mutex Cond Data Local Env Op)

/-- What holds of a thread that is about to wait, or at the end of a call. -/
def Disciplined : P.Thread → Prop
  | ⟨.run (.wait k) :: _, false, held, .awake, _⟩ => P.mutexOf k ∈ held
  | ⟨.ret _ base _ :: _, _, held, .awake, _⟩ => held = base
  | _ => True

variable (bare : (Data → Local → Bool) → Cond → Prop)

/-- None of these mutexes belongs to a bare loop: one that waits outside any guard. -/
def Outside (held : List Mutex) : Prop := ∀ p k, bare p k → P.mutexOf k ∉ held

/-- Every wait of the command is in the scope of a guard on its mutex, or it is the
body of a bare loop. -/
inductive Scoped : List Mutex → Cmd Mutex Cond Data Local Env Op → Prop
  | skip {held} : Scoped held .skip
  | act {held f} : Scoped held (.act f)
  | seq {held a b} : Scoped held a → Scoped held b → Scoped held (.seq a b)
  | ite {held p a b} : Scoped held a → Scoped held b → Scoped held (.ite p a b)
  | loop {held p body} : Scoped held body → Scoped held (.loop p body)
  | guard {held m tries without body} :
      Scoped held without → Scoped (m :: held) body → Scoped held (.guard m tries without body)
  | wait {held k} (owned : P.mutexOf k ∈ held) : Scoped held (.wait k)
  | bareLoop {held p k} (known : bare p k) (outside : P.mutexOf k ∉ held) :
      Scoped held (.loop p (.wait k))
  | signal {held f} : Scoped held (.signal f)
  | spawn {held start op} : Scoped held (.spawn start op)
  | foreign {held} (outside : P.Outside bare held) : Scoped held .foreign
  | raise {held} : Scoped held .raise
  | attempt {held body} : Scoped held body → Scoped held (.attempt body)
  | crash {held} : Scoped held .crash

/-- Whoever calls a procedure, its waits are scoped. -/
def WellScoped : Prop := ∀ op held, P.Outside bare held → P.Scoped bare held (P.body op)

/-- What a thread holds is what its open scopes will release. -/
inductive Balanced : List (Frame Mutex Cond Data Local Env Op) → List Mutex → Prop
  | idle : Balanced [] []
  | run {c fs held} : P.Scoped bare held c → Balanced fs held → Balanced (.run c :: fs) held
  | unlock {m fs held} : Balanced fs held → Balanced (.unlock m :: fs) (m :: held)
  | caught {fs held} : Balanced fs held → Balanced (.catch :: fs) held
  | ret {op fs base l} : Balanced fs base → Balanced (.ret op base l :: fs) base

structure Sound (t : P.Thread) : Prop where
  balanced : P.Balanced bare t.frames t.held
  waiting : ∀ k, t.waiting.cond = some k → P.mutexOf k ∈ t.held

/-- The step takes no thread into a wait that stands in no guard. -/
def PassesBare (s : Locks Mutex Data) : P.Thread → LockAct Env Op → Prop
  | ⟨.run (.loop p (.wait k)) :: _, false, held, .awake, l⟩, .go _ =>
    P.mutexOf k ∈ held ∨ p s.data l = false
  | _, _ => True

/-- What a thread owns right now. -/
def owned [DecidableEq Mutex] (t : P.Thread) : List Mutex :=
  match t.waiting.cond with
  | some k => t.held.erase (P.mutexOf k)
  | none => t.held

/-- A check that a command waits only in guards of its own, and runs code from outside
only while these guards hold mutexes that are `apart` from the bare loops. -/
def checked [DecidableEq Mutex] (apart : Mutex → Bool) :
    List Mutex → Cmd Mutex Cond Data Local Env Op → Bool
  | held, .seq a b => checked apart held a && checked apart held b
  | held, .ite _ a b => checked apart held a && checked apart held b
  | held, .loop _ body => checked apart held body
  | held, .guard m _ without body => checked apart held without && checked apart (m :: held) body
  | held, .wait k => decide (P.mutexOf k ∈ held)
  | held, .foreign => held.all apart
  | held, .attempt body => checked apart held body
  | _, _ => true

variable {P bare}

theorem scoped_of_checked [DecidableEq Mutex] {apart : Mutex → Bool}
    (away : ∀ p k, bare p k → apart (P.mutexOf k) = false) {base : List Mutex}
    (outside : P.Outside bare base) {c : Cmd Mutex Cond Data Local Env Op} {held : List Mutex}
    (h : P.checked apart held c = true) : P.Scoped bare (held ++ base) c := by
  induction c generalizing held with
  | seq _ _ first second =>
    obtain ⟨ha, hb⟩ := Bool.and_eq_true_iff.mp h
    exact .seq (first ha) (second hb)
  | ite _ _ _ yes no =>
    obtain ⟨ha, hb⟩ := Bool.and_eq_true_iff.mp h
    exact .ite (yes ha) (no hb)
  | loop _ _ body => exact .loop (body h)
  | guard _ _ _ _ without body =>
    obtain ⟨ha, hb⟩ := Bool.and_eq_true_iff.mp h
    exact .guard (without ha) (body hb)
  | wait => exact .wait (List.mem_append_left _ (of_decide_eq_true h))
  | foreign =>
    refine .foreign fun p k known mem => ?_
    rcases List.mem_append.mp mem with mem | mem
    · have distant := List.all_eq_true.mp h _ mem
      rw [away p k known] at distant
      cases distant
    · exact outside p k known mem
  | attempt _ body => exact .attempt (body h)
  | _ => constructor

theorem Sound.awake {frames : List (Frame Mutex Cond Data Local Env Op)} {raised : Bool}
    {held : List Mutex} {l : Local} (balanced : P.Balanced bare frames held) :
    P.Sound bare ⟨frames, raised, held, .awake, l⟩ :=
  ⟨balanced, nofun⟩

/-- What a thread executes next stands in the scopes it has open. -/
theorem Balanced.top {c : Cmd Mutex Cond Data Local Env Op} {held : List Mutex}
    {fs : List (Frame Mutex Cond Data Local Env Op)} (h : P.Balanced bare (.run c :: fs) held) :
    P.Scoped bare held c ∧ P.Balanced bare fs held := by
  cases h with
  | run inScope rest => exact ⟨inScope, rest⟩

theorem Sound.wake {t : P.Thread} (h : P.Sound bare t) : P.Sound bare t.wake := by
  obtain ⟨frames, raised, held, waiting, l⟩ := t
  cases waiting <;> exact ⟨h.balanced, h.waiting⟩

theorem Balanced.held_eq_nil {held : List Mutex} (h : P.Balanced bare [] held) : held = [] := by
  cases h
  rfl

theorem Sound.disciplined {t : P.Thread} (h : P.Sound bare t) : P.Disciplined t := by
  have balanced := h.balanced
  unfold Disciplined
  split
  · cases balanced.top.1 with
    | wait owned => exact owned
  · dsimp only at balanced
    cases balanced with
    | ret => rfl
  · trivial

variable [DecidableEq Mutex]

instance : DecidablePred P.Disciplined := fun t => by
  unfold Disciplined
  split <;> infer_instance

theorem owned_wake (t : P.Thread) : P.owned t.wake = P.owned t := by
  obtain ⟨frames, raised, held, waiting, l⟩ := t
  cases waiting <;> rfl

/-! ## One step of one thread -/

theorem sound_of_step (all : P.WellScoped bare) {s : Locks Mutex Data} {t : P.Thread}
    {a : LockAct Env Op} {o : P.Effect} (h : P.Sound bare t) (passes : P.PassesBare s t a)
    (step : P.ThreadStep s t a o) : P.Sound bare o.self := by
  have balanced := h.balanced
  cases step with
  | calls =>
    cases balanced with
    | idle => exact .awake (.run (all _ _ nofun) (.ret .idle))
  | callsInside =>
    cases balanced.top.1 with
    | foreign outside => exact .awake (.run (all _ _ outside) (.ret balanced))
  | skip | act | signals | spawns | foreign | foreignRaises | raises | unwinds | leaves =>
    exact .awake balanced.top.2
  | seq =>
    obtain ⟨inScope, rest⟩ := balanced.top
    cases inScope with
    | seq first second => exact .awake (.run first (.run second rest))
  | ite =>
    obtain ⟨inScope, rest⟩ := balanced.top
    cases inScope with
    | ite yes no =>
      refine .awake (.run ?_ rest)
      split <;> assumption
  | repeats again =>
    have inScope := balanced.top.1
    cases inScope with
    | loop body => exact .awake (.run body balanced)
    | bareLoop known outside =>
      rcases passes with owned | stops
      · exact absurd owned outside
      · rw [again] at stops
        cases stops
  | locks =>
    obtain ⟨inScope, rest⟩ := balanced.top
    cases inScope with
    | guard without body => exact .awake (.run body (.unlock rest))
  | givesUp =>
    obtain ⟨inScope, rest⟩ := balanced.top
    cases inScope with
    | guard without body => exact .awake (.run without rest)
  | waits =>
    obtain ⟨inScope, rest⟩ := balanced.top
    cases inScope with
    | wait owned =>
      refine ⟨rest, ?_⟩
      intro k same
      obtain rfl := Option.some.inj same
      exact owned
  | resumes =>
    have owned := h.waiting _ rfl
    rw [reacquire, if_pos owned]
    exact .awake balanced
  | tries =>
    obtain ⟨inScope, rest⟩ := balanced.top
    cases inScope with
    | attempt body => exact .awake (.run body (.caught rest))
  | unlocks =>
    cases balanced with
    | unlock rest =>
      rw [List.erase_cons_head]
      exact .awake rest
  | catches =>
    cases balanced with
    | caught rest => exact .awake rest
  | returns =>
    dsimp only at balanced
    cases balanced with
    | ret rest => exact .awake rest

theorem sound_spawned (all : P.WellScoped bare) {s : Locks Mutex Data} {t : P.Thread}
    {a : LockAct Env Op} {o : P.Effect} (step : P.ThreadStep s t a o) :
    ∀ u ∈ o.spawned, P.Sound bare u ∧ P.owned u = [] := by
  cases step with
  | spawns =>
    intro u started
    obtain rfl := List.mem_singleton.mp started
    exact ⟨.awake (.run (all _ _ nofun) (.ret .idle)), rfl⟩
  | _ => exact nofun

theorem count_erase_add {ms : List Mutex} {m' : Mutex} (h : m' ∈ ms) (m : Mutex) :
    (ms.erase m').count m + (if m' = m then 1 else 0) = ms.count m := by
  rw [(List.perm_cons_erase h).count_eq m, List.count_cons]
  simp

/-- A step takes and releases the mutexes that its thread comes to own and gives up. -/
theorem locked_of_step {s : Locks Mutex Data} {t : P.Thread} {a : LockAct Env Op}
    {o : P.Effect} (h : P.Sound bare t) (step : P.ThreadStep s t a o)
    (counted : ∀ m, (P.owned t).count m ≤ s.locked.count m) (m : Mutex) :
    o.shared.locked.count m + (P.owned t).count m =
      s.locked.count m + (P.owned o.self).count m := by
  have mem_locked {m : Mutex} (owns : m ∈ P.owned t) : m ∈ s.locked :=
    List.count_pos_iff.mp (Nat.lt_of_lt_of_le (List.count_pos_iff.mpr owns) (counted m))
  have balanced := h.balanced
  cases step with
  | locks =>
    simp only [owned, Waiting.cond, List.count_cons]
    omega
  | unlocks =>
    cases balanced with
    | unlock =>
      have released := count_erase_add (mem_locked List.mem_cons_self) m
      simp only [owned, Waiting.cond, List.count_cons, List.erase_cons_head, beq_iff_eq]
      omega
  | waits =>
    cases balanced.top.1 with
    | wait owns =>
      have released := count_erase_add (mem_locked owns) m
      have left := count_erase_add owns m
      dsimp only at left
      simp only [owned, Waiting.cond, park, if_pos owns]
      omega
  | resumes =>
    have owns := h.waiting _ rfl
    have taken := count_erase_add owns m
    dsimp only at taken
    simp only [owned, Waiting.cond, reacquire, if_pos owns, List.count_cons, beq_iff_eq]
    omega
  | _ => rfl

/-! ## Runs -/

/-- Every thread is sound, and the locked mutexes are those some thread owns. -/
structure SoundAll (bare : (Data → Local → Bool) → Cond → Prop)
    (c : Config (Locks Mutex Data) P.Thread (Op × Bool)) : Prop where
  sound : ∀ t ∈ c.threads, P.Sound bare t
  locked : ∀ m, c.shared.locked.count m = total (fun t => (P.owned t).count m) c.threads

/-- The step takes no thread into a wait that stands in no guard. -/
def Passes (c : Config (Locks Mutex Data) P.Thread (Op × Bool)) : Move (LockAct Env Op) → Prop
  | .run i a _ => ∀ t, c.threads[i]? = some t → P.PassesBare c.shared t a
  | .spurious _ => True

theorem soundAll_idle (data : Data) (l : Local) (n : Nat) : SoundAll bare (P.idle data l n) where
  sound t ht := by
    rw [List.eq_of_mem_replicate ht]
    exact .awake .idle
  locked m := by
    refine (total_eq_zero.mpr fun t ht => ?_).symm
    rw [List.eq_of_mem_replicate ht]
    rfl

/-- When no call is in progress, every mutex is free. -/
theorem SoundAll.unlocked {c : Config (Locks Mutex Data) P.Thread (Op × Bool)} (h : SoundAll bare c)
    (finished : ∀ t ∈ c.threads, t.frames = []) : c.shared.locked = [] := by
  apply List.eq_nil_iff_forall_not_mem.mpr
  intro m locked
  have none : total (fun t => (P.owned t).count m) c.threads = 0 := total_eq_zero.mpr fun t ht => by
    have balanced := (h.sound t ht).balanced
    rw [finished t ht] at balanced
    have nothing : P.owned t = [] := by
      rw [owned, balanced.held_eq_nil]
      split <;> rfl
    rw [nothing, List.count_nil]
  rw [← h.locked m] at none
  exact List.count_eq_zero.mp none locked

variable [DecidableEq Cond]

theorem soundAll_step (all : P.WellScoped bare)
    {c c' : Config (Locks Mutex Data) P.Thread (Op × Bool)}
    {mv : Move (LockAct Env Op)} (h : SoundAll bare c) (passes : Passes c mv)
    (step : P.program.Step c mv c') : SoundAll bare c' := by
  have stable (m : Mutex) : P.program.Stable fun t => (P.owned t).count m :=
    fun t _ => congrArg (List.count m) (owned_wake t)
  cases step with
  | spurious here waits =>
    constructor
    · intro u hu
      rcases List.mem_or_eq_of_mem_set hu with hu | rfl
      · exact h.sound u hu
      · exact (h.sound _ (List.mem_of_getElem? here)).wake
    · intro m
      rw [P.program.total_spurious (stable m) here waits]
      exact h.locked m
  | @run i a cs t o ts here fires delivered =>
    have step := P.threadStep_of_block fires
    have woken := P.program.deliver_woken delivered
    have sound := h.sound t (List.mem_of_getElem? here)
    constructor
    · exact P.program.forall_run (P.Sound bare) (fun _ _ => Sound.wake) woken h.sound o.self
        (sound_of_step all sound (passes t here) step) o.spawned
        (fun u hu => (sound_spawned all step u hu).1) i
    · intro m
      have counted (m : Mutex) : (P.owned t).count m ≤ c.shared.locked.count m := by
        rw [h.locked m]
        exact le_total_of_getElem? (fun t => (P.owned t).count m) here
      have moved := P.program.total_run (stable m) woken here o.self o.spawned
      have changed := locked_of_step sound step counted m
      have fresh : total (fun t => (P.owned t).count m) o.spawned = 0 :=
        total_eq_zero.mpr fun u hu => by rw [(sound_spawned all step u hu).2, List.count_nil]
      have locked := h.locked m
      dsimp only
      omega

/-- A thread that enters a bare wait is at once about to wait without the mutex. -/
theorem bare_wait_undisciplined {c c' : Config (Locks Mutex Data) P.Thread (Op × Bool)}
    {mv : Move (LockAct Env Op)} (enters : ¬ Passes c mv) (step : P.program.Step c mv c') :
    ∃ t ∈ c'.threads, ¬ P.Disciplined t := by
  cases step with
  | spurious => exact absurd trivial enters
  | @run i a cs t o ts here fires delivered =>
    obtain ⟨t', here', enters⟩ := not_forall₂.mp enters
    obtain rfl : t' = t := Option.some.inj (here'.symm.trans here)
    obtain ⟨u, there, -⟩ := (P.program.deliver_woken delivered).getElem? P.program here
    have bound := (List.getElem?_eq_some_iff.mp there).1
    refine ⟨o.self, List.mem_append_left _ (List.mem_set bound _), ?_⟩
    have step := P.threadStep_of_block fires
    unfold PassesBare at enters
    split at enters
    · obtain ⟨outside, goesOn⟩ := not_or.mp enters
      cases step with
      | repeats => exact outside
      | leaves done => exact absurd done goesOn
    · exact absurd trivial enters

end Threads.Concurrency.Procedures
