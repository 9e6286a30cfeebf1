import Threads.Concurrency.Total

/-!
# Monitor programs

A program is a list of threads over one shared state. A thread moves by atomic
blocks: everything it does between taking a mutex and giving it up again, or one
access made without any mutex. A block may signal condition variables. A waiting
thread leaves its condition variable by a delivered notification or spuriously,
and then has to run the block that resumes it.
-/

namespace Threads.Concurrency

/-- What a block asks of a condition variable. -/
inductive Signal (Cond : Type) where
  | notify (m : Cond)
  | notifyAll (m : Cond)

/-- The effect of one atomic block. -/
structure Outcome (Shared Self Local Event Cond : Type) where
  shared : Shared
  self : Self
  signals : List (Signal Cond) := []
  spawned : List Local := []
  events : List Event := []

/-- `waitsOn` names the condition variable in which a thread is parked with no
notification delivered; `wake` delivers one. -/
structure Program (Shared Local Act Event Cond : Type) where
  waitsOn : Local → Option Cond
  wake : Local → Local
  wake_awake : ∀ l, waitsOn (wake l) = none
  block : Shared → Local → Act → Option (Outcome Shared Local Local Event Cond)

/-- The log is a history of what happened; no block reads it. -/
structure Config (Shared Local Event : Type) where
  shared : Shared
  threads : List Local
  log : List (Nat × Event) := []

/-- `run` carries the threads the scheduler picks for the block's `notify` calls. -/
inductive Move (Act : Type) where
  | run (i : Nat) (a : Act) (choices : List Nat)
  | spurious (i : Nat)

namespace Program

variable {Shared Local Act Event Cond : Type}
variable (P : Program Shared Local Act Event Cond)

/-! ## Waking threads -/

/-- A delivery leaves a thread alone or wakes it. -/
def Woken : List Local → List Local → Prop :=
  List.Forall₂ fun l l' => l' = l ∨ P.waitsOn l ≠ none ∧ l' = P.wake l

theorem Woken.refl (ts : List Local) : P.Woken ts ts := by
  induction ts with
  | nil => exact .nil
  | cons _ _ ih => exact .cons (.inl rfl) ih

theorem Woken.trans {ts us vs : List Local} (h : P.Woken ts us) (k : P.Woken us vs) :
    P.Woken ts vs := by
  induction h generalizing vs with
  | nil => exact k
  | cons first _ ih =>
    cases k with
    | cons second rest =>
      refine .cons ?_ (ih rest)
      rcases first with rfl | ⟨waits, rfl⟩
      · exact second
      · rcases second with rfl | ⟨asleep, rfl⟩
        · exact .inr ⟨waits, rfl⟩
        · exact absurd (P.wake_awake _) asleep

theorem Woken.set {ts : List Local} {i : Nat} {l : Local} (here : ts[i]? = some l)
    (waits : P.waitsOn l ≠ none) : P.Woken ts (ts.set i (P.wake l)) := by
  induction ts generalizing i with
  | nil => simp at here
  | cons s ts ih =>
    cases i with
    | zero =>
      obtain rfl : s = l := by simpa using here
      exact .cons (.inr ⟨waits, rfl⟩) (Woken.refl P ts)
    | succ i => exact .cons (.inl rfl) (ih (by simpa using here))

theorem Woken.getElem? {ts us : List Local} (h : P.Woken ts us) {i : Nat} {l : Local}
    (here : ts[i]? = some l) :
    ∃ l', us[i]? = some l' ∧ (l' = l ∨ P.waitsOn l ≠ none ∧ l' = P.wake l) := by
  induction h generalizing i with
  | nil => simp at here
  | cons first _ ih =>
    cases i with
    | zero =>
      obtain rfl := Option.some.inj here
      exact ⟨_, rfl, first⟩
    | succ i => exact ih (by simpa using here)

/-- After a block there are its own thread, those it started, and the others, woken or not. -/
theorem mem_run {ts us : List Local} (h : P.Woken ts us) {i : Nat} {self l : Local}
    {spawned : List Local} (mem : l ∈ us.set i self ++ spawned) :
    l = self ∨ l ∈ spawned ∨
      ∃ j l₀, j ≠ i ∧ ts[j]? = some l₀ ∧ (l = l₀ ∨ P.waitsOn l₀ ≠ none ∧ l = P.wake l₀) := by
  rcases List.mem_append.mp mem with mem | mem
  · obtain ⟨j, there⟩ := List.mem_iff_getElem?.mp mem
    by_cases own : i = j
    · subst own
      have bound := (List.getElem?_eq_some_iff.mp there).1
      rw [List.getElem?_set_self (by simpa using bound)] at there
      exact .inl (Option.some.inj there).symm
    · rw [List.getElem?_set_ne own] at there
      have bound : j < ts.length := by
        rw [h.length_eq]
        exact (List.getElem?_eq_some_iff.mp there).1
      have here : ts[j]? = some ts[j] := List.getElem?_eq_getElem bound
      obtain ⟨l', same, woken⟩ := h.getElem? P here
      obtain rfl : l' = l := Option.some.inj (same.symm.trans there)
      exact .inr (.inr ⟨j, ts[j], Ne.symm own, here, woken⟩)
  · exact .inr (.inl mem)

theorem getElem?_run_self {ts us : List Local} (h : P.Woken ts us) {i : Nat} {l : Local}
    (here : ts[i]? = some l) (self : Local) (spawned : List Local) :
    (us.set i self ++ spawned)[i]? = some self := by
  obtain ⟨l', here', -⟩ := h.getElem? P here
  have bound : i < us.length := (List.getElem?_eq_some_iff.mp here').1
  rw [List.getElem?_append_left (by simpa using bound), List.getElem?_set_self bound]

theorem getElem?_run_other {ts us : List Local} (h : P.Woken ts us) {i j : Nat} (other : j ≠ i)
    {l : Local} (there : ts[j]? = some l) (self : Local) (spawned : List Local) :
    ∃ l', (us.set i self ++ spawned)[j]? = some l' ∧
      (l' = l ∨ P.waitsOn l ≠ none ∧ l' = P.wake l) := by
  obtain ⟨l', there', woken⟩ := h.getElem? P there
  have bound : j < us.length := (List.getElem?_eq_some_iff.mp there').1
  refine ⟨l', ?_, woken⟩
  rw [List.getElem?_append_left (by simpa using bound), List.getElem?_set_ne (Ne.symm other),
    there']

/-- Waking a thread leaves its contribution as it was. -/
def Stable (f : Local → Nat) : Prop := ∀ l, P.waitsOn l ≠ none → f (P.wake l) = f l

theorem Woken.total {f : Local → Nat} (hf : P.Stable f) {ts us : List Local} (h : P.Woken ts us) :
    total f us = total f ts := by
  refine (total_congr (h.imp ?_)).symm
  rintro l l' (rfl | ⟨waits, rfl⟩)
  · rfl
  · exact (hf l waits).symm

theorem total_spurious {f : Local → Nat} (hf : P.Stable f) {ts : List Local} {i : Nat} {l : Local}
    (here : ts[i]? = some l) (waits : P.waitsOn l ≠ none) :
    total f (ts.set i (P.wake l)) = total f ts :=
  Woken.total P hf (Woken.set P here waits)

/-- A block changes a stable total by what its own thread changes and what it starts. -/
theorem total_run {f : Local → Nat} (hf : P.Stable f) {ts us : List Local} {i : Nat} {l : Local}
    (h : P.Woken ts us) (here : ts[i]? = some l) (self : Local) (spawned : List Local) :
    total f (us.set i self ++ spawned) + f l = total f ts + f self + total f spawned := by
  obtain ⟨l', here', eq⟩ := h.getElem? P here
  have same : f l' = f l := by
    rcases eq with rfl | ⟨waits, rfl⟩
    · rfl
    · exact hf l waits
  have changed := total_set f here' self
  have woken := Woken.total P hf h
  simp only [total_append]
  omega

/-- What waking keeps true of every thread, a block that keeps it true of its own thread
and of those it starts keeps true of all. -/
theorem forall_run (p : Local → Prop) (hp : ∀ l, P.waitsOn l ≠ none → p l → p (P.wake l))
    {ts us : List Local} (h : P.Woken ts us) (all : ∀ l ∈ ts, p l) (self : Local) (own : p self)
    (spawned : List Local) (started : ∀ l ∈ spawned, p l) (i : Nat) :
    ∀ l ∈ us.set i self ++ spawned, p l := by
  have woken : ∀ l ∈ us, p l := by
    induction h with
    | nil => simp
    | cons first _ ih =>
      intro l hl
      rcases List.mem_cons.mp hl with rfl | hl
      · rcases first with rfl | ⟨waits, rfl⟩
        · exact all _ List.mem_cons_self
        · exact hp _ waits (all _ List.mem_cons_self)
      · exact ih (fun l hl => all l (List.mem_cons_of_mem _ hl)) l hl
  intro l hl
  rcases List.mem_append.mp hl with hl | hl
  · rcases List.mem_or_eq_of_mem_set hl with hl | rfl
    · exact woken l hl
    · exact own
  · exact started l hl

/-- What can be seen of the `i`-th thread, `d` while there is none. -/
def look {β : Type} (f : Local → β) (d : β) (ts : List Local) (i : Nat) : β :=
  ((ts[i]?).map f).getD d

theorem look_of_getElem? {β : Type} (f : Local → β) (d : β) {ts : List Local} {i : Nat} {l : Local}
    (here : ts[i]? = some l) : look f d ts i = f l := by
  simp [look, here]

theorem look_blank {β : Type} {f : Local → β} {d : β} {ts : List Local}
    (blank : ∀ l ∈ ts, f l = d) (i : Nat) : look f d ts i = d := by
  cases here : ts[i]? with
  | none => simp [look, here]
  | some l => rw [look_of_getElem? f d here, blank l (List.mem_of_getElem? here)]

/-- A block changes what can be seen of its own thread only. -/
theorem look_run {β : Type} {f : Local → β} {d : β}
    (hf : ∀ l, P.waitsOn l ≠ none → f (P.wake l) = f l) {ts us : List Local} {j : Nat} {l : Local}
    (h : P.Woken ts us) (here : ts[j]? = some l) (self : Local) (spawned : List Local)
    (blank : ∀ l ∈ spawned, f l = d) (i : Nat) :
    look f d (us.set j self ++ spawned) i = if i = j then f self else look f d ts i := by
  obtain ⟨l', here', -⟩ := h.getElem? P here
  have bound : j < us.length := (List.getElem?_eq_some_iff.mp here').1
  by_cases own : i = j
  · subst own
    have after : (us.set i self ++ spawned)[i]? = some self := by
      rw [List.getElem?_append_left (by simpa using bound), List.getElem?_set_self bound]
    rw [if_pos rfl, look_of_getElem? f d after]
  · rw [if_neg own]
    cases old : ts[i]? with
    | some m =>
      obtain ⟨m', woken, same⟩ := h.getElem? P old
      have inside : i < us.length := (List.getElem?_eq_some_iff.mp woken).1
      have seen : f m' = f m := by
        rcases same with rfl | ⟨waits, rfl⟩
        · rfl
        · exact hf m waits
      have after : (us.set j self ++ spawned)[i]? = some m' := by
        rw [List.getElem?_append_left (by simpa using inside), List.getElem?_set_ne (Ne.symm own),
          woken]
      rw [look_of_getElem? f d after, look_of_getElem? f d old, seen]
    | none =>
      have outside : us.length ≤ i := by
        rw [← h.length_eq]
        exact List.getElem?_eq_none_iff.mp old
      simp only [look, old, Option.map_none, Option.getD_none]
      rw [List.getElem?_append_right (by simpa using outside)]
      cases new : spawned[i - (us.set j self).length]? with
      | none => rfl
      | some m => exact blank m (List.mem_of_getElem? new)

/-! ## Steps -/

variable [DecidableEq Cond]

def wakeIf (m : Cond) (l : Local) : Local := if P.waitsOn l = some m then P.wake l else l

/-- Notify wakes one thread parked in `m`, if there is one. -/
def wakeOne (m : Cond) (i : Nat) (ts : List Local) : Option (List Local) :=
  if ts.any (fun l => P.waitsOn l = some m) then
    match ts[i]? with
    | some l => if P.waitsOn l = some m then some (ts.set i (P.wake l)) else none
    | none => none
  else some ts

def deliver : List (Signal Cond) → List Nat → List Local → Option (List Local)
  | [], _, ts => some ts
  | .notifyAll m :: ss, cs, ts => deliver ss cs (ts.map (P.wakeIf m))
  | .notify m :: ss, cs, ts => (P.wakeOne m (cs.headD 0) ts).bind (deliver ss cs.tail)

def step (c : Config Shared Local Event) : Move Act → Option (Config Shared Local Event)
  | .run i a cs => do
    let l ← c.threads[i]?
    let o ← P.block c.shared l a
    let ts ← P.deliver o.signals cs c.threads
    return ⟨o.shared, ts.set i o.self ++ o.spawned, c.log ++ o.events.map (Prod.mk i)⟩
  | .spurious i => do
    let l ← c.threads[i]?
    if (P.waitsOn l).isSome then return { c with threads := c.threads.set i (P.wake l) } else none

/-- The two ways a configuration can change. -/
inductive Step (c : Config Shared Local Event) : Move Act → Config Shared Local Event → Prop
  | run {i a cs l o ts} (here : c.threads[i]? = some l) (fires : P.block c.shared l a = some o)
      (delivered : P.deliver o.signals cs c.threads = some ts) :
      Step c (.run i a cs)
        ⟨o.shared, ts.set i o.self ++ o.spawned, c.log ++ o.events.map (Prod.mk i)⟩
  | spurious {i l} (here : c.threads[i]? = some l) (waits : P.waitsOn l ≠ none) :
      Step c (.spurious i) { c with threads := c.threads.set i (P.wake l) }

theorem step_iff {c c' : Config Shared Local Event} {mv : Move Act} :
    P.step c mv = some c' ↔ P.Step c mv c' := by
  constructor
  · intro h
    cases mv with
    | run i a cs =>
      simp only [step, Option.pure_def, Option.bind_eq_bind, Option.bind_eq_some_iff,
        Option.some.injEq] at h
      obtain ⟨l, here, o, fires, ts, delivered, rfl⟩ := h
      exact .run here fires delivered
    | spurious i =>
      simp only [step, Option.pure_def, Option.bind_eq_bind, Option.bind_eq_some_iff] at h
      obtain ⟨l, here, h⟩ := h
      split at h
      · rename_i waits
        obtain rfl := Option.some.inj h
        exact .spurious here (Option.isSome_iff_ne_none.mp waits)
      · cases h
  · intro h
    cases h with
    | run here fires delivered => simp [step, here, fires, delivered]
    | spurious here waits => simp [step, here, Option.isSome_iff_ne_none.mpr waits]

/-! ## Delivering notifications -/

theorem Woken.map (m : Cond) (ts : List Local) : P.Woken ts (ts.map (P.wakeIf m)) := by
  induction ts with
  | nil => exact .nil
  | cons l ts ih =>
    refine .cons ?_ ih
    by_cases h : P.waitsOn l = some m
    · exact .inr ⟨by simp [h], by simp [wakeIf, h]⟩
    · exact .inl (by simp [wakeIf, h])

theorem wakeOne_woken {m : Cond} {i : Nat} {ts us : List Local} (h : P.wakeOne m i ts = some us) :
    P.Woken ts us := by
  unfold wakeOne at h
  split at h
  · split at h
    · rename_i l here
      split at h
      · rename_i waits
        obtain rfl := Option.some.inj h
        exact Woken.set P here (by simp [waits])
      · cases h
    · cases h
  · obtain rfl := Option.some.inj h
    exact Woken.refl P ts

theorem deliver_woken {ss : List (Signal Cond)} {cs : List Nat} {ts us : List Local}
    (h : P.deliver ss cs ts = some us) : P.Woken ts us := by
  induction ss generalizing cs ts with
  | nil =>
    obtain rfl := Option.some.inj h
    exact Woken.refl P ts
  | cons s ss ih =>
    cases s with
    | notifyAll m => exact Woken.trans P (Woken.map P m ts) (ih h)
    | notify m =>
      obtain ⟨vs, first, rest⟩ := Option.bind_eq_some_iff.mp h
      exact Woken.trans P (P.wakeOne_woken first) (ih rest)

/-- Some choice of threads to wake is always possible. -/
theorem exists_wakeOne (m : Cond) (ts : List Local) : ∃ i us, P.wakeOne m i ts = some us := by
  by_cases some : ts.any (fun l => P.waitsOn l = some m) = true
  · obtain ⟨l, mem, waits⟩ := List.any_eq_true.mp some
    obtain ⟨i, here⟩ := List.mem_iff_getElem?.mp mem
    refine ⟨i, ts.set i (P.wake l), ?_⟩
    simp only [decide_eq_true_eq] at waits
    rw [wakeOne, if_pos some]
    simp [here, waits]
  · exact ⟨0, ts, by rw [wakeOne, if_neg some]⟩

theorem exists_deliver (ss : List (Signal Cond)) (ts : List Local) :
    ∃ cs us, P.deliver ss cs ts = some us := by
  induction ss generalizing ts with
  | nil => exact ⟨[], ts, rfl⟩
  | cons s ss ih =>
    cases s with
    | notifyAll m => exact ih (ts.map (P.wakeIf m))
    | notify m =>
      obtain ⟨i, vs, first⟩ := P.exists_wakeOne m ts
      obtain ⟨cs, us, rest⟩ := ih vs
      refine ⟨i :: cs, us, ?_⟩
      rw [deliver, List.headD_cons, first]
      exact rest

/-! ## Threads parked in one condition variable -/

/-- One for a thread parked in `m` with no notification delivered. -/
def parkedIn (m : Cond) (l : Local) : Nat := if P.waitsOn l = some m then 1 else 0

/-- The number of threads left in `m` after the signals of a block. -/
def afterSignals (m : Cond) : List (Signal Cond) → Nat → Nat
  | [], n => n
  | .notify k :: ss, n => afterSignals m ss (if k = m then n - 1 else n)
  | .notifyAll k :: ss, n => afterSignals m ss (if k = m then 0 else n)

theorem parkedIn_eq_zero {m : Cond} {l : Local} (awake : P.waitsOn l = none) :
    P.parkedIn m l = 0 := by
  simp [parkedIn, awake]

/-- A spurious wakeup parks nobody. -/
theorem total_parkedIn_wake_le (m : Cond) {i : Nat} {ts : List Local} {l : Local}
    (here : ts[i]? = some l) :
    total (P.parkedIn m) (ts.set i (P.wake l)) ≤ total (P.parkedIn m) ts := by
  have changed := total_set (P.parkedIn m) here (P.wake l)
  rw [P.parkedIn_eq_zero (P.wake_awake l)] at changed
  omega

theorem parkedIn_wakeIf (m k : Cond) (l : Local) :
    P.parkedIn m (P.wakeIf k l) = if k = m then 0 else P.parkedIn m l := by
  by_cases h : P.waitsOn l = some k
  · have woken : P.parkedIn m (P.wakeIf k l) = 0 := by
      rw [wakeIf, if_pos h, P.parkedIn_eq_zero (P.wake_awake l)]
    rw [woken]
    by_cases same : k = m <;> simp [parkedIn, h, same]
  · by_cases same : k = m
    · subst same
      simp [wakeIf, parkedIn, h]
    · simp [wakeIf, h, same]

theorem total_parkedIn_map (m k : Cond) (ts : List Local) :
    total (P.parkedIn m) (ts.map (P.wakeIf k)) =
      if k = m then 0 else total (P.parkedIn m) ts := by
  induction ts with
  | nil => simp
  | cons l ts ih =>
    simp only [List.map_cons, total_cons, ih, parkedIn_wakeIf]
    split <;> rfl

theorem total_parkedIn_wakeOne {k : Cond} {i : Nat} {ts us : List Local}
    (h : P.wakeOne k i ts = some us) (m : Cond) :
    total (P.parkedIn m) us =
      if k = m then total (P.parkedIn m) ts - 1 else total (P.parkedIn m) ts := by
  unfold wakeOne at h
  split at h
  · split at h
    · rename_i l here
      split at h
      · rename_i waits
        obtain rfl := Option.some.inj h
        have changed := total_set (P.parkedIn m) here (P.wake l)
        rw [P.parkedIn_eq_zero (P.wake_awake l)] at changed
        by_cases same : k = m
        · have one : P.parkedIn m l = 1 := by simp [parkedIn, waits, same]
          simp only [same, if_true]
          omega
        · have zero : P.parkedIn m l = 0 := by simp [parkedIn, waits, same]
          simp only [same, if_false]
          omega
      · cases h
    · cases h
  · rename_i noOne
    obtain rfl := Option.some.inj h
    by_cases same : k = m
    · subst same
      have zero : total (P.parkedIn k) ts = 0 := total_eq_zero.mpr fun l hl => by
        have others := mt List.any_eq_true.mpr noOne
        simp only [decide_eq_true_eq, not_exists, not_and] at others
        simp [parkedIn, others l hl]
      simp [zero]
    · simp [same]

theorem total_parkedIn_deliver {ss : List (Signal Cond)} {cs : List Nat} {ts us : List Local}
    (h : P.deliver ss cs ts = some us) (m : Cond) :
    total (P.parkedIn m) us = afterSignals m ss (total (P.parkedIn m) ts) := by
  induction ss generalizing cs ts with
  | nil =>
    obtain rfl := Option.some.inj h
    rfl
  | cons s ss ih =>
    cases s with
    | notifyAll k => rw [ih h, total_parkedIn_map, afterSignals]
    | notify k =>
      obtain ⟨vs, first, rest⟩ := Option.bind_eq_some_iff.mp h
      rw [ih rest, P.total_parkedIn_wakeOne first, afterSignals]

/-- After a block of a thread that is not parked in `m`, the threads parked there are
those its signals left, and whoever the block itself parked or started. -/
theorem total_parkedIn_run {m : Cond} {ss : List (Signal Cond)} {cs : List Nat} {ts us : List Local}
    (h : P.deliver ss cs ts = some us) {i : Nat} {l : Local} (here : ts[i]? = some l)
    (elsewhere : P.waitsOn l ≠ some m) (self : Local) (spawned : List Local) :
    total (P.parkedIn m) (us.set i self ++ spawned) =
      afterSignals m ss (total (P.parkedIn m) ts) + P.parkedIn m self +
        total (P.parkedIn m) spawned := by
  obtain ⟨l', here', eq⟩ := (P.deliver_woken h).getElem? P here
  have zero : P.parkedIn m l' = 0 := by
    rcases eq with rfl | ⟨-, rfl⟩
    · simp [parkedIn, elsewhere]
    · exact P.parkedIn_eq_zero (P.wake_awake l)
  have changed := total_set (P.parkedIn m) here' self
  rw [zero, P.total_parkedIn_deliver h m] at changed
  simp only [total_append]
  omega

@[simp] theorem afterSignals_nil (m : Cond) (n : Nat) : afterSignals m [] n = n := rfl

@[simp] theorem afterSignals_notifyAll (m k : Cond) (n : Nat) :
    afterSignals m [.notifyAll k] n = if k = m then 0 else n := rfl

@[simp] theorem afterSignals_replicate (m k : Cond) (n r : Nat) :
    afterSignals m (List.replicate r (.notify k)) n = if k = m then n - r else n := by
  induction r generalizing n with
  | zero => simp
  | succ r ih =>
    simp only [List.replicate_succ, afterSignals, ih]
    split <;> omega

end Program

end Threads.Concurrency
