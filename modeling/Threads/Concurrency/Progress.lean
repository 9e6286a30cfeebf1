import Threads.Concurrency.Run

/-!
# Runs that come to rest

A configuration rests when none of the steps in question is possible in it. Under a
rank that each of these steps lowers no run of them is endless, and every
configuration has a run to one that rests. A rank is a sum over the threads; a
notification may raise it, by one for the thread it wakes.
-/

namespace Threads.Concurrency.Program

variable {Shared Local Act Event Cond : Type} [DecidableEq Cond]
variable (P : Program Shared Local Act Event Cond)

/-- No step that meets `ok` is possible. -/
def Resting (ok : Config Shared Local Event → Move Act → Prop) (c : Config Shared Local Event) :
    Prop :=
  ∀ mv c', ok c mv → ¬ P.Step c mv c'

/-- `c'` comes after `c` by a step that meets `ok`. -/
def Follows (ok : Config Shared Local Event → Move Act → Prop) (c' c : Config Shared Local Event) :
    Prop :=
  ∃ mv, ok c mv ∧ P.Step c mv c'

/-- A run that goes on for ever: `moves n` leads from `visits n` to the next configuration. -/
def Endless (visits : Nat → Config Shared Local Event) (moves : Nat → Move Act) : Prop :=
  ∀ n, P.Step (visits n) (moves n) (visits (n + 1))

variable {P} {ok : Config Shared Local Event → Move Act → Prop} {c c' : Config Shared Local Event}

/-- A rank in a well-founded order that every step lowers. -/
theorem acc_of_rank {α : Type} {r : α → α → Prop} (wf : WellFounded r)
    (inv : Config Shared Local Event → Prop) (rank : Config Shared Local Event → α)
    (lowers : ∀ {c mv c'}, inv c → ok c mv → P.Step c mv c' → inv c' ∧ r (rank c') (rank c))
    (init : inv c) : Acc (P.Follows ok) c := by
  induction at_rank : rank c using wf.induction generalizing c with
  | h x ih =>
    subst at_rank
    constructor
    rintro c' ⟨mv, hok, step⟩
    obtain ⟨kept, lower⟩ := lowers init hok step
    exact ih (rank c') lower kept rfl

/-- Where the steps cannot go on for ever, some run of them ends in a configuration at rest. -/
theorem exists_resting (acc : Acc (P.Follows ok) c) : ∃ c', P.Run ok c c' ∧ P.Resting ok c' := by
  induction acc with
  | intro c _ ih =>
    by_cases rests : P.Resting ok c
    · exact ⟨c, .refl, rests⟩
    · simp only [Resting, not_forall, not_not] at rests
      obtain ⟨mv, c', hok, step⟩ := rests
      obtain ⟨d, run, there⟩ := ih c' ⟨mv, hok, step⟩
      exact ⟨d, Run.trans (.tail .refl hok step) run, there⟩

/-- An endless run takes steps that do not meet `ok` again and again. -/
theorem Endless.interrupted {visits : Nat → Config Shared Local Event} {moves : Nat → Move Act}
    (endless : P.Endless visits moves) (acc : ∀ n, Acc (P.Follows ok) (visits n)) (n : Nat) :
    ∃ m, n ≤ m ∧ ¬ ok (visits m) (moves m) := by
  have here := acc n
  generalize at_visit : visits n = c at here
  induction here generalizing n with
  | intro c _ ih =>
    subst at_visit
    by_cases hok : ok (visits n) (moves n)
    · obtain ⟨m, later, bad⟩ := ih (visits (n + 1)) ⟨moves n, hok, endless n⟩ (n + 1) rfl
      exact ⟨m, Nat.le_of_succ_le later, bad⟩
    · exact ⟨n, Nat.le_refl n, hok⟩

variable (P)

/-- A block that is enabled can be taken, with some choice of the threads it notifies. -/
theorem exists_step {i : Nat} {l : Local} {a : Act} (here : c.threads[i]? = some l)
    (fires : (P.block c.shared l a).isSome = true) : ∃ cs c', P.Step c (.run i a cs) c' := by
  obtain ⟨o, fires⟩ := Option.isSome_iff_exists.mp fires
  obtain ⟨cs, ts, delivered⟩ := P.exists_deliver o.signals c.threads
  exact ⟨cs, _, .run here fires delivered⟩

variable {P}

theorem Resting.blocked (rests : P.Resting ok c) {i : Nat} {l : Local} {a : Act}
    (here : c.threads[i]? = some l) (allowed : ∀ cs, ok c (.run i a cs)) :
    P.block c.shared l a = none := by
  by_contra enabled
  obtain ⟨cs, c', step⟩ := P.exists_step here (Option.isSome_iff_ne_none.mpr enabled)
  exact rests _ c' (allowed cs) step

/-! ## What notifications add to a rank -/

variable (P)

/-- A notification adds at most one to what the thread contributes. -/
def Lifts (f : Local → Nat) : Prop :=
  ∀ l, P.waitsOn l ≠ none → f l ≤ f (P.wake l) ∧ f (P.wake l) ≤ f l + 1

variable {P}

omit [DecidableEq Cond] in
theorem Woken.le_total {f : Local → Nat} (hf : P.Lifts f) {ts us : List Local} (h : P.Woken ts us)
    {i : Nat} {l : Local} (here : ts[i]? = some l) : ∃ l', us[i]? = some l' ∧ f l ≤ f l' := by
  obtain ⟨l', there, same⟩ := h.getElem? P here
  refine ⟨l', there, ?_⟩
  rcases same with rfl | ⟨waits, rfl⟩
  · exact Nat.le_refl _
  · exact (hf l waits).1

theorem total_wakeOne_le {f : Local → Nat} (hf : P.Lifts f) {m : Cond} {i : Nat}
    {ts us : List Local} (h : P.wakeOne m i ts = some us) : total f us ≤ total f ts + 1 := by
  unfold wakeOne at h
  split at h
  · split at h
    · rename_i l here
      split at h
      · rename_i waits
        obtain rfl := Option.some.inj h
        have changed := total_set f here (P.wake l)
        have lifted := (hf l (by simp [waits])).2
        omega
      · cases h
    · cases h
  · obtain rfl := Option.some.inj h
    exact Nat.le_succ _

theorem total_deliver_le {f : Local → Nat} (hf : P.Lifts f) {ss : List (Signal Cond)}
    (single : ∀ s ∈ ss, ∃ m, s = .notify m) {cs : List Nat} {ts us : List Local}
    (h : P.deliver ss cs ts = some us) : total f us ≤ total f ts + ss.length := by
  induction ss generalizing cs ts with
  | nil =>
    obtain rfl := Option.some.inj h
    exact Nat.le_refl _
  | cons s ss ih =>
    obtain ⟨m, rfl⟩ := single s List.mem_cons_self
    obtain ⟨vs, first, rest⟩ := Option.bind_eq_some_iff.mp h
    have one := total_wakeOne_le hf first
    have others := ih (fun s hs => single s (List.mem_cons_of_mem _ hs)) rest
    rw [List.length_cons]
    omega

/-- A block adds to a rank what its own thread and those it starts add, and at most one
for each of its notifications. -/
theorem total_run_le {f : Local → Nat} (hf : P.Lifts f) {ss : List (Signal Cond)}
    (single : ∀ s ∈ ss, ∃ m, s = .notify m) {cs : List Nat} {ts us : List Local}
    (h : P.deliver ss cs ts = some us) {i : Nat} {l : Local} (here : ts[i]? = some l) (self : Local)
    (spawned : List Local) :
    total f (us.set i self ++ spawned) + f l ≤
      total f ts + ss.length + f self + total f spawned := by
  obtain ⟨l', there, raised⟩ := (P.deliver_woken h).le_total hf here
  have changed := total_set f there self
  have woken := total_deliver_le hf single h
  rw [total_append]
  omega

end Threads.Concurrency.Program
