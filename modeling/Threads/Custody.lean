import Mathlib.Logic.Function.Basic

/-!
# Custody of resources

An object has one resource at most at a time. It obtains a resource, adopts one from other code and
releases the one it has; other code opens resources of its own. A history is sound if the object
releases nothing but what it has obtained or adopted.
-/

namespace Threads.Custody

variable {Resource : Type} [DecidableEq Resource]

inductive Holder where
  | free
  | elsewhere
  | own
  deriving DecidableEq, Repr

inductive Call (Resource : Type) where
  | obtained (r : Resource)
  | adopted (r : Resource)
  | closed (r : Resource)
  /-- Other code obtains a resource. -/
  | opened (r : Resource)
  deriving DecidableEq, Repr

abbrev Table (Resource : Type) := Resource → Holder

/-- What a call changes; adopting something that no other code holds gives no custody of it. -/
def Table.after (t : Table Resource) : Call Resource → Table Resource
  | .obtained r => Function.update t r .own
  | .adopted r => if t r = .elsewhere then Function.update t r .own else t
  | .closed r => Function.update t r .free
  | .opened r => Function.update t r .elsewhere

def Table.afterAll (t : Table Resource) (calls : List (Call Resource)) : Table Resource :=
  calls.foldl Table.after t

/-- What holds of every call, with the holders before it. -/
def Every (ok : Table Resource → Call Resource → Prop) :
    Table Resource → List (Call Resource) → Prop
  | _, [] => True
  | t, call :: calls => ok t call ∧ Every ok (t.after call) calls

/-- What is obtained was free. -/
def Supplied (t : Table Resource) : Call Resource → Prop
  | .obtained r | .opened r => t r = .free
  | _ => True

def ClosesOwn (t : Table Resource) : Call Resource → Prop
  | .closed r => t r = .own
  | _ => True

def AdoptsOthers (t : Table Resource) : Call Resource → Prop
  | .adopted r => t r = .elsewhere
  | _ => True

instance decidableEvery (ok : Table Resource → Call Resource → Prop)
    [∀ t call, Decidable (ok t call)]
    (t : Table Resource) (calls : List (Call Resource)) : Decidable (Every ok t calls) :=
  match calls with
  | [] => isTrue trivial
  | call :: calls =>
    have := decidableEvery ok (t.after call) calls
    inferInstanceAs (Decidable (ok t call ∧ Every ok (t.after call) calls))

instance (t : Table Resource) (call : Call Resource) : Decidable (Supplied t call) := by
  unfold Supplied
  split <;> infer_instance

instance (t : Table Resource) (call : Call Resource) : Decidable (AdoptsOthers t call) := by
  unfold AdoptsOthers
  split <;> infer_instance

/-- The object holds this resource and no other. -/
def Holds (held : Option Resource) (t : Table Resource) : Prop := ∀ r, t r = .own ↔ held = some r

/-- The object takes something for its own that is not. -/
def Stale (held : Option Resource) (t : Table Resource) : Prop := ∃ r, held = some r ∧ t r ≠ .own

/-- The calls that release what is held. -/
def release (held : Option Resource) : List (Call Resource) :=
  match held with
  | none => []
  | some r => [.closed r]

section

variable {t : Table Resource} {held : Option Resource} {r : Resource}
variable {ok : Table Resource → Call Resource → Prop}

@[simp] theorem afterAll_nil : t.afterAll [] = t := rfl

@[simp] theorem afterAll_append (xs ys : List (Call Resource)) :
    t.afterAll (xs ++ ys) = (t.afterAll xs).afterAll ys := List.foldl_append

theorem every_append (xs ys : List (Call Resource)) :
    Every ok t (xs ++ ys) ↔ Every ok t xs ∧ Every ok (t.afterAll xs) ys := by
  induction xs generalizing t with
  | nil => exact ⟨fun later => ⟨trivial, later⟩, And.right⟩
  | cons x xs ih =>
    show _ ∧ Every ok (t.after x) (xs ++ ys) ↔ (_ ∧ Every ok (t.after x) xs) ∧ _
    rw [ih, and_assoc]
    rfl

theorem every_release (h : Holds held t) : Every ClosesOwn t (release held) := by
  cases held with
  | none => trivial
  | some r => exact ⟨(h r).mpr rfl, trivial⟩

theorem holds_release (h : Holds held t) : Holds none (t.afterAll (release held)) := by
  cases held with
  | none => exact h
  | some r =>
    intro x
    show Function.update t r .free x = .own ↔ _
    by_cases same : x = r
    · subst same
      rw [Function.update_self]
      exact ⟨nofun, nofun⟩
    · rw [Function.update_of_ne same, h x]
      exact ⟨fun other => absurd (Option.some.inj other).symm same, nofun⟩

theorem holds_update (h : Holds none t) : Holds (some r) (Function.update t r .own) := by
  intro x
  by_cases same : x = r
  · subst same
    rw [Function.update_self]
    exact ⟨fun _ => rfl, fun _ => rfl⟩
  · rw [Function.update_of_ne same, h x]
    exact ⟨nofun, fun other => absurd (Option.some.inj other).symm same⟩

theorem holds_adopted (h : Holds none t) (others : t r = .elsewhere) :
    Holds (some r) (t.after (.adopted r)) := by
  rw [Table.after, if_pos others]
  exact holds_update h

theorem holds_opened (h : Holds held t) (free : t r = .free) :
    Holds held (t.after (.opened r)) := by
  intro x
  show Function.update t r .elsewhere x = .own ↔ _
  by_cases same : x = r
  · subst same
    rw [Function.update_self, ← h x, free]
    exact ⟨nofun, nofun⟩
  · rw [Function.update_of_ne same]
    exact h x

theorem stale_adopted (h : Holds none t) (nobody : t r ≠ .elsewhere) :
    Stale (some r) (t.after (.adopted r)) := by
  refine ⟨r, rfl, ?_⟩
  rw [Table.after, if_neg nobody]
  exact fun own => absurd ((h r).mp own) nofun

theorem stale_opened (h : Stale held t) (r : Resource) : Stale held (t.after (.opened r)) := by
  obtain ⟨x, mine, lost⟩ := h
  refine ⟨x, mine, ?_⟩
  show Function.update t r .elsewhere x ≠ .own
  by_cases same : x = r
  · subst same
    rw [Function.update_self]
    exact nofun
  · rw [Function.update_of_ne same]
    exact lost

/-- What is stale is released by mistake. -/
theorem stale_release (h : Stale held t) : ¬ Every ClosesOwn t (release held) := by
  obtain ⟨r, rfl, lost⟩ := h
  exact fun closes => lost closes.1

end

end Threads.Custody
