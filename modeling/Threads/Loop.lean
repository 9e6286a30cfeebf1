import Mathlib.Order.Basic

/-!
# Loops whose turns are decided from outside

A turn of a loop gets something from outside (what a system call returns, the shared state
another thread has left) and goes round again, leaves the loop or does something undefined.
-/

namespace Threads.Loop

variable {State Input Result : Type}

inductive Turn (State Result : Type) where
  | again (s : State)
  | leave (r : Result)
  | undefined

/-- Where a loop is after some turns. -/
inductive Fate (State Result : Type) where
  | running (s : State)
  | left (r : Result)
  | undefined

/-- The loop after at most `n` turns: turn `k` gets `inputs k`. -/
def run (turn : State → Input → Turn State Result) :
    Nat → State → (Nat → Input) → Fate State Result
  | 0, s, _ => .running s
  | n + 1, s, inputs =>
    match turn s (inputs 0) with
    | .again next => run turn n next fun k => inputs (k + 1)
    | .leave r => .left r
    | .undefined => .undefined

variable {turn : State → Input → Turn State Result} {n m : Nat} {s s' : State} {r : Result}
variable {inputs : Nat → Input}

theorem run_again {next : State} (h : turn s (inputs 0) = .again next) :
    run turn (n + 1) s inputs = run turn n next fun k => inputs (k + 1) := by
  simp only [run, h]

theorem run_leave (h : turn s (inputs 0) = .leave r) : run turn (n + 1) s inputs = .left r := by
  simp only [run, h]

theorem run_undefined (h : turn s (inputs 0) = .undefined) :
    run turn (n + 1) s inputs = .undefined := by
  simp only [run, h]

/-- What one turn after another keeps is true as long as the loop runs. -/
theorem invariant (inv : State → Prop) (init : inv s)
    (keeps : ∀ {s i s'}, inv s → turn s i = .again s' → inv s')
    (h : run turn n s inputs = .running s') : inv s' := by
  induction n generalizing s inputs with
  | zero =>
    obtain rfl := Fate.running.inj h
    exact init
  | succ n ih =>
    cases first : turn s (inputs 0) with
    | again next =>
      rw [run_again first] at h
      exact ih (keeps init first) h
    | leave r =>
      rw [run_leave first] at h
      cases h
    | undefined =>
      rw [run_undefined first] at h
      cases h

/-- A loop that has been left was left by one of its turns. -/
theorem exists_of_left (h : run turn n s inputs = .left r) :
    ∃ k s', run turn k s inputs = .running s' ∧ turn s' (inputs k) = .leave r := by
  induction n generalizing s inputs with
  | zero => cases h
  | succ n ih =>
    cases first : turn s (inputs 0) with
    | again next =>
      rw [run_again first] at h
      obtain ⟨k, s', running, leaves⟩ := ih h
      refine ⟨k + 1, s', ?_, leaves⟩
      rw [run_again first]
      exact running
    | leave r' =>
      rw [run_leave first] at h
      obtain rfl := Fate.left.inj h
      exact ⟨0, s, rfl, first⟩
    | undefined =>
      rw [run_undefined first] at h
      cases h

/-! ## Conditions that are exact for a loop -/

variable {ok : State → Input → Prop}

/-- `ok` is true of every turn that the loop comes to. -/
def EachTurn (turn : State → Input → Turn State Result) (ok : State → Input → Prop) (s : State)
    (inputs : Nat → Input) : Prop :=
  ∀ n s', run turn n s inputs = .running s' → ok s' (inputs n)

theorem EachTurn.first (h : EachTurn turn ok s inputs) : ok s (inputs 0) := h 0 s rfl

theorem EachTurn.rest {next : State} (h : EachTurn turn ok s inputs)
    (again : turn s (inputs 0) = .again next) :
    EachTurn turn ok next fun k => inputs (k + 1) := by
  intro n s' running
  apply h (n + 1) s'
  rw [run_again again]
  exact running

theorem eachTurn_of_first (first : ok s (inputs 0))
    (rest : ∀ next, turn s (inputs 0) = .again next →
      EachTurn turn ok next fun k => inputs (k + 1)) : EachTurn turn ok s inputs := by
  intro n s' running
  cases n with
  | zero =>
    obtain rfl := Fate.running.inj running
    exact first
  | succ n =>
    cases turned : turn s (inputs 0) with
    | again next =>
      rw [run_again turned] at running
      exact rest next turned n s' running
    | leave r =>
      rw [run_leave turned] at running
      cases running
    | undefined =>
      rw [run_undefined turned] at running
      cases running

/-- What a turn may do when the loop is not to be left well any more. -/
def Spoils (spoiled : State → Prop) (good : Result → Prop) : Turn State Result → Prop
  | .again s => spoiled s
  | .leave r => ¬ good r
  | .undefined => True

theorem not_good_of_spoiled {spoiled : State → Prop} {good : Result → Prop}
    (stays : ∀ {s i}, spoiled s → Spoils spoiled good (turn s i)) (init : spoiled s)
    (h : run turn n s inputs = .left r) : ¬ good r := by
  induction n generalizing s inputs with
  | zero => cases h
  | succ n ih =>
    have spoils := stays (i := inputs 0) init
    cases turned : turn s (inputs 0) with
    | again next =>
      rw [turned] at spoils
      rw [run_again turned] at h
      exact ih spoils h
    | leave r' =>
      rw [turned] at spoils
      rw [run_leave turned] at h
      obtain rfl := Fate.left.inj h
      exact spoils
    | undefined =>
      rw [run_undefined turned] at h
      cases h

section

variable {inv spoiled : State → Prop} {good : Result → Prop} {measure : State → Nat}

/-- A loop that is left well has not been spoiled by its first turn. -/
theorem ok_of_left (breaks : ∀ {s i}, inv s → ¬ ok s i → Spoils spoiled good (turn s i))
    (stays : ∀ {s i}, spoiled s → Spoils spoiled good (turn s i)) (init : inv s)
    (left : run turn (n + 1) s inputs = .left r) (well : good r) : ok s (inputs 0) := by
  by_contra bad
  have spoils := breaks init bad
  cases turned : turn s (inputs 0) with
  | again next =>
    rw [turned] at spoils
    rw [run_again turned] at left
    exact not_good_of_spoiled stays spoils left well
  | leave r' =>
    rw [turned] at spoils
    rw [run_leave turned] at left
    obtain rfl := Fate.left.inj left
    exact spoils well
  | undefined =>
    rw [run_undefined turned] at left
    cases left

theorem eachTurn_of_left
    (keeps : ∀ {s i}, inv s → ok s i →
      (∃ next, turn s i = .again next ∧ inv next ∧ measure next < measure s) ∨
        ∃ r, turn s i = .leave r ∧ good r)
    (breaks : ∀ {s i}, inv s → ¬ ok s i → Spoils spoiled good (turn s i))
    (stays : ∀ {s i}, spoiled s → Spoils spoiled good (turn s i)) (init : inv s)
    (left : run turn n s inputs = .left r) (well : good r) : EachTurn turn ok s inputs := by
  induction n generalizing s inputs with
  | zero => cases left
  | succ n ih =>
    have first := ok_of_left breaks stays init left well
    apply eachTurn_of_first first
    intro next again
    rw [run_again again] at left
    rcases keeps init first with ⟨next', again', kept, -⟩ | ⟨r', leaves, -⟩
    · obtain rfl := Turn.again.inj (again.symm.trans again')
      exact ih kept left
    · rw [again] at leaves
      cases leaves

theorem left_of_eachTurn
    (keeps : ∀ {s i}, inv s → ok s i →
      (∃ next, turn s i = .again next ∧ inv next ∧ measure next < measure s) ∨
        ∃ r, turn s i = .leave r ∧ good r)
    (init : inv s) (each : EachTurn turn ok s inputs) :
    ∃ n r, run turn n s inputs = .left r ∧ good r := by
  induction left : measure s using Nat.strongRecOn generalizing s inputs with
  | ind m ih =>
    rcases keeps init each.first with ⟨next, again, kept, closer⟩ | ⟨r, leaves, well⟩
    · obtain ⟨n, r, left', well⟩ := ih (measure next) (left ▸ closer) kept (each.rest again) rfl
      refine ⟨n + 1, r, ?_, well⟩
      rw [run_again again]
      exact left'
    · exact ⟨1, r, run_leave leaves, well⟩

end

/-- When turns that meet `ok` keep the invariant, come closer to the end and leave the loop
well, and a turn that does not spoils it for good, the loop is left well exactly if all its
turns meet `ok`. -/
theorem left_iff {inv spoiled : State → Prop} {good : Result → Prop} (measure : State → Nat)
    (keeps : ∀ {s i}, inv s → ok s i →
      (∃ next, turn s i = .again next ∧ inv next ∧ measure next < measure s) ∨
        ∃ r, turn s i = .leave r ∧ good r)
    (breaks : ∀ {s i}, inv s → ¬ ok s i → Spoils spoiled good (turn s i))
    (stays : ∀ {s i}, spoiled s → Spoils spoiled good (turn s i)) (init : inv s) :
    (∃ n r, run turn n s inputs = .left r ∧ good r) ↔ EachTurn turn ok s inputs := by
  constructor
  · rintro ⟨n, r, left, well⟩
    exact eachTurn_of_left keeps breaks stays init left well
  · exact left_of_eachTurn keeps init

end Threads.Loop
