import Threads.Concurrency.Program

/-!
# Runs and their invariants

A run is any finite sequence of moves. Invariants are proved once for one step
and hold of every configuration a run visits. A run may be restricted by a
condition on each step and the configuration it starts from.
-/

namespace Threads.Concurrency.Program

variable {Shared Local Act Event Cond : Type} [DecidableEq Cond]
variable (P : Program Shared Local Act Event Cond)

/-- The configurations reached from `c₀` by steps that all meet `ok`. -/
inductive Run (ok : Config Shared Local Event → Move Act → Prop) (c₀ : Config Shared Local Event) :
    Config Shared Local Event → Prop
  | refl : Run ok c₀ c₀
  | tail {c c' mv} : Run ok c₀ c → ok c mv → P.Step c mv c' → Run ok c₀ c'

/-- A run without any condition on its steps. -/
abbrev Reach (c₀ : Config Shared Local Event) : Config Shared Local Event → Prop :=
  P.Run (fun _ _ => True) c₀

variable {P} {ok ok' : Config Shared Local Event → Move Act → Prop}
variable {c₀ c c' : Config Shared Local Event}

theorem Run.invariant {inv : Config Shared Local Event → Prop} (init : inv c₀)
    (step : ∀ {c mv c'}, inv c → ok c mv → P.Step c mv c' → inv c') (h : P.Run ok c₀ c) :
    inv c := by
  induction h with
  | refl => exact init
  | tail _ hok next ih => exact step ih hok next

theorem Run.imp (weaker : ∀ {c mv}, ok c mv → ok' c mv) (h : P.Run ok c₀ c) : P.Run ok' c₀ c := by
  induction h with
  | refl => exact .refl
  | tail _ hok next ih => exact .tail ih (weaker hok) next

theorem Run.trans {c₁ c₂ : Config Shared Local Event} (h : P.Run ok c₀ c₁) (k : P.Run ok c₁ c₂) :
    P.Run ok c₀ c₂ := by
  induction k with
  | refl => exact h
  | tail _ hok next ih => exact .tail ih hok next

theorem Run.reach (h : P.Run ok c₀ c) : P.Reach c₀ c := h.imp fun _ => trivial

/-- The log only grows. -/
theorem Step.log_prefix {mv : Move Act} (h : P.Step c mv c') : c.log <+: c'.log := by
  cases h with
  | run => exact List.prefix_append _ _
  | spurious => exact List.prefix_refl _

theorem Run.log_prefix (h : P.Run ok c₀ c) : c₀.log <+: c.log := by
  induction h with
  | refl => exact List.prefix_refl _
  | tail _ _ next ih => exact ih.trans next.log_prefix

/-! ## Executing a schedule -/

variable (P)

/-- Run the moves in order, as long as each is possible and meets `ok`. -/
def execWhile (ok : Config Shared Local Event → Move Act → Prop) [∀ c mv, Decidable (ok c mv)] :
    Config Shared Local Event → List (Move Act) → Option (Config Shared Local Event)
  | c, [] => some c
  | c, mv :: mvs => if ok c mv then (P.step c mv).bind fun c' => execWhile ok c' mvs else none

def exec : Config Shared Local Event → List (Move Act) → Option (Config Shared Local Event) :=
  P.execWhile fun _ _ => True

variable {P}

theorem run_of_execWhile [∀ c mv, Decidable (ok c mv)] {mvs : List (Move Act)}
    (h : P.execWhile ok c mvs = some c') : P.Run ok c c' := by
  induction mvs generalizing c with
  | nil =>
    obtain rfl := Option.some.inj h
    exact .refl
  | cons mv mvs ih =>
    simp only [execWhile] at h
    split at h
    · rename_i hok
      obtain ⟨d, next, rest⟩ := Option.bind_eq_some_iff.mp h
      exact Run.trans (.tail .refl hok (P.step_iff.mp next)) (ih rest)
    · cases h

variable (P)

/-- A schedule that can be executed up to a configuration with property `p`. -/
theorem exists_run (ok : Config Shared Local Event → Move Act → Prop) [∀ c mv, Decidable (ok c mv)]
    (c : Config Shared Local Event) (p : Config Shared Local Event → Prop) [DecidablePred p]
    (mvs : List (Move Act))
    (h : (P.execWhile ok c mvs).any (fun c' => decide (p c')) = true) :
    ∃ c', P.Run ok c c' ∧ p c' := by
  obtain ⟨c', run, hp⟩ := (Option.any_eq_true _ _).mp h
  exact ⟨c', run_of_execWhile run, of_decide_eq_true hp⟩

theorem exists_reach (c : Config Shared Local Event) (p : Config Shared Local Event → Prop)
    [DecidablePred p] (mvs : List (Move Act))
    (h : (P.exec c mvs).any (fun c' => decide (p c')) = true) : ∃ c', P.Reach c c' ∧ p c' :=
  P.exists_run _ c p mvs h

/-! ## Conditions that are exact for a run -/

/-- `holds` is true of every configuration the schedule visits, up to the first
move that is not possible. -/
def Throughout (holds : Config Shared Local Event → Prop) :
    Config Shared Local Event → List (Move Act) → Prop
  | c, [] => holds c
  | c, mv :: mvs => holds c ∧
    match P.step c mv with
    | some c' => Throughout holds c' mvs
    | none => True

/-- `ok` is true of every step the schedule takes. -/
def EachStep (ok : Config Shared Local Event → Move Act → Prop) :
    Config Shared Local Event → List (Move Act) → Prop
  | _, [] => True
  | c, mv :: mvs =>
    match P.step c mv with
    | some c' => ok c mv ∧ EachStep ok c' mvs
    | none => True

instance decidableEachStep [∀ c mv, Decidable (ok c mv)] :
    ∀ (c : Config Shared Local Event) (mvs : List (Move Act)), Decidable (P.EachStep ok c mvs)
  | _, [] => isTrue trivial
  | c, mv :: mvs =>
    match next : P.step c mv with
    | some c' =>
      have := decidableEachStep c' mvs
      decidable_of_iff (ok c mv ∧ P.EachStep ok c' mvs) (by simp [EachStep, next])
    | none => isTrue (by simp [EachStep, next])

variable {P}

theorem Throughout.head {holds : Config Shared Local Event → Prop} {mvs : List (Move Act)}
    (h : P.Throughout holds c mvs) : holds c := by
  cases mvs with
  | nil => exact h
  | cons => exact h.1

/-- When steps that meet `ok` keep the invariant, and a step that does not meet it
breaks `holds` at once, `holds` is true along a schedule of allowed moves exactly if
all its steps meet `ok`. -/
theorem throughout_iff_within {allowed : Move Act → Prop}
    {inv holds : Config Shared Local Event → Prop} (good : ∀ {c}, inv c → holds c)
    (keeps : ∀ {c mv c'}, inv c → allowed mv → ok c mv → P.Step c mv c' → inv c')
    (breaks : ∀ {c mv c'}, inv c → allowed mv → ¬ ok c mv → P.Step c mv c' → ¬ holds c')
    (init : inv c) {mvs : List (Move Act)} (domain : ∀ mv ∈ mvs, allowed mv) :
    P.Throughout holds c mvs ↔ P.EachStep ok c mvs := by
  induction mvs generalizing c with
  | nil => simp only [Throughout, EachStep, good init]
  | cons mv mvs ih =>
    have first := domain mv List.mem_cons_self
    have rest := fun mv h => domain mv (List.mem_cons_of_mem _ h)
    simp only [Throughout, EachStep, good init, true_and]
    cases next : P.step c mv with
    | none => rfl
    | some c' =>
      have fires := P.step_iff.mp next
      constructor
      · intro along
        have hok : ok c mv := by
          by_contra bad
          exact breaks init first bad fires along.head
        exact ⟨hok, (ih (keeps init first hok fires) rest).mp along⟩
      · rintro ⟨hok, later⟩
        exact (ih (keeps init first hok fires) rest).mpr later

theorem throughout_iff {inv holds : Config Shared Local Event → Prop}
    (good : ∀ {c}, inv c → holds c)
    (keeps : ∀ {c mv c'}, inv c → ok c mv → P.Step c mv c' → inv c')
    (breaks : ∀ {c mv c'}, inv c → ¬ ok c mv → P.Step c mv c' → ¬ holds c')
    (init : inv c) (mvs : List (Move Act)) :
    P.Throughout holds c mvs ↔ P.EachStep ok c mvs :=
  have any : ∀ mv ∈ mvs, (fun _ : Move Act => True) mv := fun _ _ => trivial
  throughout_iff_within good (fun h _ => keeps h) (fun h _ => breaks h) init any

/-! ## Properties of the steps of a schedule -/

variable (P)

/-- `holds` relates every configuration the schedule visits to the next one. -/
def EachTaken (holds : Config Shared Local Event → Move Act → Config Shared Local Event → Prop) :
    Config Shared Local Event → List (Move Act) → Prop
  | _, [] => True
  | c, mv :: mvs =>
    match P.step c mv with
    | some c' => holds c mv c' ∧ EachTaken holds c' mvs
    | none => True

variable {P}

/-- When `ok` is exact for each step from a configuration with the invariant, it is exact for
a schedule that starts from one. -/
theorem eachTaken_iff {inv : Config Shared Local Event → Prop}
    {holds : Config Shared Local Event → Move Act → Config Shared Local Event → Prop}
    (exactly : ∀ {c mv c'}, inv c → P.Step c mv c' → (holds c mv c' ↔ ok c mv))
    (keeps : ∀ {c mv c'}, inv c → ok c mv → P.Step c mv c' → inv c') (init : inv c)
    (mvs : List (Move Act)) : P.EachTaken holds c mvs ↔ P.EachStep ok c mvs := by
  induction mvs generalizing c with
  | nil => rfl
  | cons mv mvs ih =>
    simp only [EachTaken, EachStep]
    cases next : P.step c mv with
    | none => rfl
    | some c' =>
      have fires := P.step_iff.mp next
      dsimp only
      rw [exactly init fires]
      exact and_congr_right fun hok => ih (keeps init hok fires)

end Threads.Concurrency.Program
