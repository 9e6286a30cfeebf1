import Threads.Loop
import Threads.Splitter.Jobs
import Mathlib.Data.List.Induction
import Mathlib.Data.List.Nodup

/-!
# The list of observers

`RegisterObserver`, `UnRegisterObserver` and `NotifyAllObservers` of one job, called in any
order while observers expire, and the ordered set that `observer_list_` is meant to be.
-/

namespace Threads.Splitter

/-! ## The operations -/

/-- An iterator of a `std::list`: the elements in front of it, and those from it on. Once
its element has been erased it can neither be advanced nor dereferenced. -/
structure Cursor (α : Type) where
  before : List α
  after : List α
  erased : Bool

namespace Cursor

variable {α : Type}

def begin (list : List α) : Cursor α := ⟨[], list, false⟩

def list (it : Cursor α) : List α := it.before ++ it.after

/-- `++it` -/
def advance : Cursor α → Option (Cursor α)
  | ⟨before, a :: after, false⟩ => some ⟨before ++ [a], after, false⟩
  | _ => none

/-- `erase(it)` -/
def erase : Cursor α → Option (Cursor α)
  | ⟨before, _ :: after, false⟩ => some ⟨before, after, true⟩
  | _ => none

theorem advance_erase (before : List α) (a : α) (after : List α) :
    (erase ⟨before, a :: after, false⟩).bind advance = none := by
  cases after with
  | nil => rfl
  | cons => rfl

end Cursor

def setObservers (s : JobScheduler) (job : Nat) (list : List Observer) : JobScheduler :=
  { s with observers := Function.update s.observers job list }

def registerObserver (s : JobScheduler) (job : Nat) (o : Observer) : JobScheduler :=
  if (s.observers job).any fun observer => s.lock o == s.lock observer then s
  else setObservers s job (s.observers job ++ [o])

/-- One turn of the loop of `UnRegisterObserver`, with the `++it` after it. -/
def unRegisterTurn (s : JobScheduler) (o : Observer) (it : Cursor Observer) (_ : Unit) :
    Loop.Turn (Cursor Observer) (List Observer) :=
  match it.after with
  | [] => .leave it.list
  | observer :: _ =>
    match (if s.lock observer = s.lock o then it.erase else some it).bind Cursor.advance with
    | some next => .again next
    | none => .undefined

/-- No value is left when an iterator is used after its element has been erased. -/
def unRegisterObserver (s : JobScheduler) (job : Nat) (o : Observer) : Option JobScheduler :=
  match Loop.run (unRegisterTurn s o) ((s.observers job).length + 1)
      (.begin (s.observers job)) fun _ => () with
  | .left list => some (setObservers s job list)
  | _ => none

/-- The observers whose `OnCompletedJob` is called, in order; no value is left when one of
them is null. -/
def notifyAllObservers (s : JobScheduler) (job : Nat) : Option (List Observer) :=
  (s.observers job).mapM s.lock

/-- What happens to a job's list: its two operations, and that the last `shared_ptr` to
an observer is gone. -/
inductive ObserverCall where
  | registerObserver (o : Observer)
  | unRegisterObserver (o : Observer)
  | expire (o : Observer)
  deriving DecidableEq, Repr

def afterCall (job : Nat) (s : JobScheduler) : ObserverCall → Option JobScheduler
  | .registerObserver o => some (registerObserver s job o)
  | .unRegisterObserver o => unRegisterObserver s job o
  | .expire o => some { s with useCount := Function.update s.useCount o 0 }

def afterCalls (job : Nat) (s : JobScheduler) (calls : List ObserverCall) :
    Option JobScheduler :=
  calls.foldlM (afterCall job) s

/-- The job has just been made. -/
def newJob (s : JobScheduler) (job : Nat) : JobScheduler := setObservers s job []

/-! ## What the list is for -/

/-- An ordered set after one more call. -/
def memberAfter (members : List Observer) : ObserverCall → List Observer
  | .registerObserver o => if o ∈ members then members else members ++ [o]
  | .unRegisterObserver o => members.filter (· ≠ o)
  | .expire _ => members

/-- The observers that are registered and not unregistered since. -/
def members (calls : List ObserverCall) : List Observer := calls.foldl memberAfter []

def JobScheduler.live (s : JobScheduler) (o : Observer) : Bool := decide (0 < s.useCount o)

/-- The live observers in the list are the live members, and while all members live,
`NotifyAllObservers` calls each of them once and nobody else. -/
structure IsMembers (job : Nat) (calls : List ObserverCall) (s : JobScheduler) : Prop where
  entries : (s.observers job).filter s.live = (members calls).filter s.live
  once : (members calls).Nodup
  notified : (∀ o ∈ members calls, s.live o) →
    notifyAllObservers s job = some (members calls)

/-- What `lock()` gives after the calls. -/
def lockAfter (s : JobScheduler) (calls : List ObserverCall) (o : Observer) : Option Observer :=
  if .expire o ∈ calls then none else s.lock o

/-- No call of `UnRegisterObserver` is for an observer that equals, as `lock()` compares
them, one registered before. -/
def NothingToRemove (s : JobScheduler) (calls : List ObserverCall) : Prop :=
  ∀ before o, before ++ [.unRegisterObserver o] <+: calls →
    ∀ r, .registerObserver r ∈ before → lockAfter s before r ≠ lockAfter s before o

/-! ## One call -/

namespace JobScheduler

variable {s : JobScheduler} {o e : Observer}

theorem lock_of_live (h : s.live o) : s.lock o = some o := if_pos (of_decide_eq_true h)

theorem lock_of_expired (h : s.live o = false) : s.lock o = none :=
  if_neg (of_decide_eq_false h)

/-- A live observer equals only itself. -/
theorem eq_of_lock_eq (same : s.lock o = s.lock e) (h : s.live o) : e = o := by
  rw [lock_of_live h] at same
  cases other : s.live e with
  | true =>
    rw [lock_of_live other] at same
    exact (Option.some.inj same).symm
  | false =>
    rw [lock_of_expired other] at same
    cases same

theorem live_of_lock_eq (same : s.lock o = s.lock e) : s.live e = s.live o := by
  cases h : s.live o with
  | true => rw [eq_of_lock_eq same h, h]
  | false =>
    cases other : s.live e with
    | false => rfl
    | true =>
      rw [lock_of_expired h, lock_of_live other] at same
      cases same

end JobScheduler

@[simp] theorem setObservers_same (s : JobScheduler) (job : Nat) :
    setObservers s job (s.observers job) = s := by
  unfold setObservers
  rw [Function.update_eq_self]

@[simp] theorem setObservers_observers (s : JobScheduler) (job : Nat) (list : List Observer) :
    (setObservers s job list).observers job = list := Function.update_self _ _ _

@[simp] theorem setObservers_live (s : JobScheduler) (job : Nat) (list : List Observer) :
    (setObservers s job list).live = s.live := rfl

/-- For the scheduler, these are the two blocks of `AddSplitterJob`. -/
theorem registerObserver_scheduler (s : JobScheduler) (job : Nat) :
    registerObserver s job .scheduler = if s.registered job then s else s.appendObserver job :=
  rfl

theorem unRegisterTurn_passes {s : JobScheduler} {o e : Observer} (differs : s.lock e ≠ s.lock o)
    (before after : List Observer) (u : Unit) :
    unRegisterTurn s o ⟨before, e :: after, false⟩ u = .again ⟨before ++ [e], after, false⟩ := by
  simp only [unRegisterTurn, if_neg differs]
  rfl

/-- The `++it` after the `erase` is the end of it. -/
theorem unRegisterTurn_erases {s : JobScheduler} {o e : Observer} (same : s.lock e = s.lock o)
    (before after : List Observer) (u : Unit) :
    unRegisterTurn s o ⟨before, e :: after, false⟩ u = .undefined := by
  simp only [unRegisterTurn, if_pos same, Cursor.advance_erase]

theorem run_unRegisterTurn (s : JobScheduler) (o : Observer) (before after : List Observer)
    (inputs : Nat → Unit) :
    Loop.run (unRegisterTurn s o) (after.length + 1) ⟨before, after, false⟩ inputs =
      if ∃ e ∈ after, s.lock e = s.lock o then .undefined else .left (before ++ after) := by
  induction after generalizing before inputs with
  | nil =>
    rw [Loop.run_leave rfl, if_neg]
    · rfl
    · rintro ⟨e, mem, -⟩
      exact List.not_mem_nil mem
  | cons e after ih =>
    by_cases same : s.lock e = s.lock o
    · rw [Loop.run_undefined (unRegisterTurn_erases same before after _), if_pos]
      exact ⟨e, List.mem_cons_self, same⟩
    · rw [List.length_cons, Loop.run_again (unRegisterTurn_passes same before after _), ih]
      simp only [List.mem_cons, exists_eq_or_imp, same, false_or, List.append_assoc,
        List.singleton_append]

/-- The list of a call that finishes is the list it has found. -/
theorem unRegisterObserver_eq (s : JobScheduler) (job : Nat) (o : Observer) :
    unRegisterObserver s job o =
      if ∃ e ∈ s.observers job, s.lock e = s.lock o then none else some s := by
  unfold unRegisterObserver Cursor.begin
  rw [run_unRegisterTurn]
  split
  · rename_i list left
    split at left
    · cases left
    · obtain rfl := Loop.Fate.left.inj left
      rw [if_neg ‹_›, List.nil_append, setObservers_same]
  · rename_i others
    split at others
    · rw [if_pos ‹_›]
    · exact absurd rfl (others _)

theorem registerObserver_cases (s : JobScheduler) (job : Nat) (o : Observer) :
    ((∃ e ∈ s.observers job, s.lock o = s.lock e) ∧ registerObserver s job o = s) ∨
      ((∀ e ∈ s.observers job, s.lock o ≠ s.lock e) ∧
        registerObserver s job o = setObservers s job (s.observers job ++ [o])) := by
  unfold registerObserver
  split
  · rename_i found
    left
    obtain ⟨e, mem, same⟩ := List.any_eq_true.mp found
    exact ⟨⟨e, mem, eq_of_beq same⟩, rfl⟩
  · rename_i missed
    right
    refine ⟨?_, rfl⟩
    intro e mem same
    exact missed (List.any_eq_true.mpr ⟨e, mem, beq_iff_eq.mpr same⟩)

theorem mapM_lock {s : JobScheduler} {list : List Observer} (alive : ∀ o ∈ list, s.live o) :
    list.mapM s.lock = some list := by
  induction list with
  | nil => rfl
  | cons o list ih =>
    rw [List.mapM_cons, JobScheduler.lock_of_live (alive o List.mem_cons_self),
      ih fun x mem => alive x (List.mem_cons_of_mem o mem)]
    rfl

theorem notifyAllObservers_eq {s : JobScheduler} {job : Nat}
    (alive : ∀ o ∈ s.observers job, s.live o) :
    notifyAllObservers s job = some (s.observers job) := mapM_lock alive

/-! ## A sequence of calls -/

theorem afterCalls_concat (job : Nat) (s : JobScheduler) (calls : List ObserverCall)
    (call : ObserverCall) :
    afterCalls job s (calls ++ [call]) =
      (afterCalls job s calls).bind fun now => afterCall job now call := by
  unfold afterCalls
  rw [List.foldlM_append]
  simp

theorem members_concat (calls : List ObserverCall) (call : ObserverCall) :
    members (calls ++ [call]) = memberAfter (members calls) call := by
  unfold members
  rw [List.foldl_append]
  rfl

theorem mem_memberAfter_register {list : List Observer} {o x : Observer} :
    x ∈ memberAfter list (.registerObserver o) ↔ x ∈ list ∨ x = o := by
  simp only [memberAfter]
  split
  · constructor
    · exact .inl
    · rintro (mem | rfl)
      · exact mem
      · assumption
  · rw [List.mem_append, List.mem_singleton]

/-- Of a new member that is not counted, nothing is seen. -/
theorem filter_memberAfter_register {list : List Observer} {o : Observer} {p : Observer → Bool}
    (unseen : p o = true → o ∈ list) :
    (memberAfter list (.registerObserver o)).filter p = list.filter p := by
  simp only [memberAfter]
  split
  · rfl
  · rename_i absent
    have uncounted : p o = false := Bool.eq_false_iff.mpr fun counted => absent (unseen counted)
    rw [List.filter_append, List.filter_singleton, uncounted, cond_false, List.append_nil]

theorem memberAfter_nodup {list : List Observer} (once : list.Nodup) (call : ObserverCall) :
    (memberAfter list call).Nodup := by
  cases call with
  | registerObserver o =>
    simp only [memberAfter]
    split
    · exact once
    · rw [← List.concat_eq_append]
      exact List.Nodup.concat ‹_› once
  | unRegisterObserver o => exact once.filter _
  | expire o => exact once

theorem members_nodup (calls : List ObserverCall) : (members calls).Nodup := by
  induction calls using List.reverseRecOn with
  | nil => exact List.nodup_nil
  | append_singleton calls call ih =>
    rw [members_concat]
    exact memberAfter_nodup ih call

theorem registered_of_mem_members {calls : List ObserverCall} {o : Observer}
    (mem : o ∈ members calls) : .registerObserver o ∈ calls := by
  induction calls using List.reverseRecOn with
  | nil => exact absurd mem List.not_mem_nil
  | append_singleton calls call ih =>
    rw [members_concat] at mem
    cases call with
    | registerObserver x =>
      rcases mem_memberAfter_register.mp mem with old | rfl
      · exact List.mem_append_left _ (ih old)
      · exact List.mem_append_right _ List.mem_cons_self
    | unRegisterObserver x => exact List.mem_append_left _ (ih (List.mem_of_mem_filter mem))
    | expire x => exact List.mem_append_left _ (ih mem)

theorem nothingToRemove_concat {s : JobScheduler} {calls : List ObserverCall}
    {call : ObserverCall} :
    NothingToRemove s (calls ++ [call]) ↔
      NothingToRemove s calls ∧ ∀ o, call = .unRegisterObserver o →
        ∀ r, .registerObserver r ∈ calls → lockAfter s calls r ≠ lockAfter s calls o := by
  constructor
  · intro none
    constructor
    · intro before o earlier
      exact none before o (earlier.trans (List.prefix_append _ _))
    · rintro o rfl
      exact none calls o (List.prefix_refl _)
  · rintro ⟨earlier, last⟩ before o here
    rcases List.prefix_concat_iff.mp here with whole | part
    · obtain ⟨rfl, same⟩ := List.append_inj' whole rfl
      exact last o (List.singleton_inj.mp same).symm
    · exact earlier before o part

/-- What holds of the list while no call has had anything to remove: no registration has
been undone, and every member equals an entry. -/
structure Listed (job : Nat) (s : JobScheduler) (calls : List ObserverCall)
    (now : JobScheduler) : Prop where
  lock : ∀ o, now.lock o = lockAfter s calls o
  registered : ∀ r, .registerObserver r ∈ calls → r ∈ members calls
  listed : ∀ e ∈ now.observers job, e ∈ members calls
  covered : ∀ o ∈ members calls, ∃ e ∈ now.observers job, now.lock o = now.lock e
  entries : (now.observers job).filter now.live = (members calls).filter now.live

theorem listed_nil (job : Nat) (s : JobScheduler) : Listed job s [] (newJob s job) where
  lock _ := rfl
  registered _ mem := absurd mem List.not_mem_nil
  listed e mem := by
    rw [newJob, setObservers_observers] at mem
    exact absurd mem List.not_mem_nil
  covered _ mem := absurd mem List.not_mem_nil
  entries := by
    rw [newJob, setObservers_observers]
    rfl

section

variable {job : Nat} {s now : JobScheduler} {calls : List ObserverCall} {call : ObserverCall}
variable {o : Observer}

theorem lockAfter_concat {x : Observer} (other : call ≠ .expire x) :
    lockAfter s (calls ++ [call]) x = lockAfter s calls x := by
  simp only [lockAfter, List.mem_append, List.mem_singleton, other.symm, or_false]

theorem Listed.lock_register (h : Listed job s calls now) (o x : Observer) :
    now.lock x = lockAfter s (calls ++ [.registerObserver o]) x := by
  rw [lockAfter_concat (by rintro ⟨⟩)]
  exact h.lock x

theorem Listed.registered_register (h : Listed job s calls now) (o : Observer) :
    ∀ r, .registerObserver r ∈ calls ++ [.registerObserver o] →
      r ∈ members (calls ++ [.registerObserver o]) := by
  intro r mem
  rw [members_concat, mem_memberAfter_register]
  rcases List.mem_append.mp mem with earlier | last
  · exact .inl (h.registered r earlier)
  · exact .inr (ObserverCall.registerObserver.inj (List.mem_singleton.mp last))

/-- An observer that equals an entry is a member without an entry of its own. -/
theorem Listed.registers_equal (h : Listed job s calls now) {e : Observer}
    (there : e ∈ now.observers job) (same : now.lock o = now.lock e) :
    Listed job s (calls ++ [.registerObserver o]) now := by
  refine ⟨h.lock_register o, h.registered_register o, ?_, ?_, ?_⟩
  · intro x mem
    rw [members_concat, mem_memberAfter_register]
    exact .inl (h.listed x mem)
  · intro x mem
    rw [members_concat, mem_memberAfter_register] at mem
    rcases mem with old | rfl
    · exact h.covered x old
    · exact ⟨e, there, same⟩
  · rw [members_concat, filter_memberAfter_register]
    · exact h.entries
    · intro live
      rw [← JobScheduler.eq_of_lock_eq same live]
      exact h.listed e there

theorem Listed.registers_new (h : Listed job s calls now)
    (missing : ∀ e ∈ now.observers job, now.lock o ≠ now.lock e) :
    Listed job s (calls ++ [.registerObserver o])
      (setObservers now job (now.observers job ++ [o])) := by
  have new : o ∉ members calls := by
    intro old
    obtain ⟨e, there, same⟩ := h.covered o old
    exact missing e there same
  have appended : members (calls ++ [.registerObserver o]) = members calls ++ [o] := by
    rw [members_concat]
    exact if_neg new
  refine ⟨h.lock_register o, h.registered_register o, ?_, ?_, ?_⟩
  · intro x mem
    rw [appended]
    rw [setObservers_observers] at mem
    rcases List.mem_append.mp mem with old | last
    · exact List.mem_append_left _ (h.listed x old)
    · exact List.mem_append_right _ last
  · intro x mem
    rw [appended] at mem
    rw [setObservers_observers]
    rcases List.mem_append.mp mem with old | last
    · obtain ⟨e, there, same⟩ := h.covered x old
      exact ⟨e, List.mem_append_left _ there, same⟩
    · exact ⟨x, List.mem_append_right _ last, rfl⟩
  · rw [appended, setObservers_observers, setObservers_live, List.filter_append, h.entries,
      List.filter_append]

theorem Listed.registers (h : Listed job s calls now) (o : Observer) :
    Listed job s (calls ++ [.registerObserver o]) (registerObserver now job o) := by
  rcases registerObserver_cases now job o with ⟨⟨e, there, same⟩, eq⟩ | ⟨missing, eq⟩
  · rw [eq]
    exact h.registers_equal there same
  · rw [eq]
    exact h.registers_new missing

/-- The call that is for nobody leaves everything as it was. -/
theorem Listed.unRegisters (h : Listed job s calls now)
    (nobody : ∀ r, .registerObserver r ∈ calls → lockAfter s calls r ≠ lockAfter s calls o) :
    Listed job s (calls ++ [.unRegisterObserver o]) now := by
  have same : members (calls ++ [.unRegisterObserver o]) = members calls := by
    rw [members_concat]
    apply List.filter_eq_self.mpr
    intro r mem
    apply decide_eq_true
    rintro rfl
    exact nobody r (registered_of_mem_members mem) rfl
  refine ⟨?_, ?_, ?_, ?_, ?_⟩
  · intro x
    rw [lockAfter_concat (by rintro ⟨⟩)]
    exact h.lock x
  · intro r mem
    rw [same]
    rcases List.mem_append.mp mem with earlier | last
    · exact h.registered r earlier
    · cases List.mem_singleton.mp last
  · rw [same]
    exact h.listed
  · rw [same]
    exact h.covered
  · rw [same]
    exact h.entries

/-- Observers that are equal stay so: those that expire become equal to the expired. -/
theorem lock_expire {x y : Observer} (same : now.lock x = now.lock y) :
    JobScheduler.lock { now with useCount := Function.update now.useCount o 0 } x =
      JobScheduler.lock { now with useCount := Function.update now.useCount o 0 } y := by
  cases live : now.live x with
  | true => rw [JobScheduler.eq_of_lock_eq same live]
  | false =>
    have other := JobScheduler.live_of_lock_eq same
    rw [live] at other
    have still : ∀ z, now.live z = false →
        JobScheduler.lock { now with useCount := Function.update now.useCount o 0 } z = none := by
      intro z expired
      have zero : now.useCount z = 0 := Nat.eq_zero_of_not_pos (of_decide_eq_false expired)
      simp [JobScheduler.lock, Function.update_apply, zero]
    rw [still x live, still y other]

theorem live_expire (x : Observer) :
    JobScheduler.live { now with useCount := Function.update now.useCount o 0 } x =
      (decide (x ≠ o) && now.live x) := by
  by_cases same : x = o
  · subst same
    simp [JobScheduler.live]
  · simp [JobScheduler.live, same]

theorem Listed.expires (h : Listed job s calls now) (o : Observer) :
    Listed job s (calls ++ [.expire o])
      { now with useCount := Function.update now.useCount o 0 } := by
  have same : members (calls ++ [.expire o]) = members calls := members_concat _ _
  refine ⟨?_, ?_, ?_, ?_, ?_⟩
  · intro x
    by_cases this : x = o
    · subst this
      simp [JobScheduler.lock, lockAfter]
    · rw [lockAfter_concat fun eq => this (ObserverCall.expire.inj eq).symm, ← h.lock x]
      simp [JobScheduler.lock, this]
  · intro r mem
    rw [same]
    rcases List.mem_append.mp mem with earlier | last
    · exact h.registered r earlier
    · cases List.mem_singleton.mp last
  · rw [same]
    exact h.listed
  · intro x mem
    rw [same] at mem
    obtain ⟨e, there, equal⟩ := h.covered x mem
    exact ⟨e, there, lock_expire equal⟩
  · rw [same, funext live_expire, ← List.filter_filter, ← List.filter_filter, h.entries]

/-- A list with nothing to remove keeps up with its members. -/
theorem listed_of_nothingToRemove (idle : NothingToRemove s calls) :
    ∃ now, afterCalls job (newJob s job) calls = some now ∧ Listed job s calls now := by
  induction calls using List.reverseRecOn with
  | nil => exact ⟨_, rfl, listed_nil job s⟩
  | append_singleton calls call ih =>
    obtain ⟨earlier, last⟩ := nothingToRemove_concat.mp idle
    obtain ⟨now, eq, h⟩ := ih earlier
    rw [afterCalls_concat, eq, Option.bind_some]
    cases call with
    | registerObserver o => exact ⟨_, rfl, h.registers o⟩
    | unRegisterObserver o =>
      have nobody := last o rfl
      refine ⟨now, ?_, h.unRegisters nobody⟩
      simp only [afterCall, unRegisterObserver_eq]
      rw [if_neg]
      rintro ⟨e, there, same⟩
      apply nobody e (registered_of_mem_members (h.listed e there))
      rw [← h.lock e, ← h.lock o, same]
    | expire o => exact ⟨_, rfl, h.expires o⟩

/-- A call with something to remove never finishes. -/
theorem nothingToRemove_of_some (h : afterCalls job (newJob s job) calls = some now) :
    NothingToRemove s calls := by
  induction calls using List.reverseRecOn generalizing now with
  | nil =>
    intro before o here
    have empty := List.prefix_nil.mp here
    exact absurd empty (List.append_ne_nil_of_right_ne_nil _ (List.cons_ne_nil _ _))
  | append_singleton calls call ih =>
    rw [afterCalls_concat] at h
    obtain ⟨found, before, last⟩ := Option.bind_eq_some_iff.mp h
    have idle := ih before
    refine nothingToRemove_concat.mpr ⟨idle, ?_⟩
    rintro o rfl r mem same
    obtain ⟨_, eq, listed⟩ := @listed_of_nothingToRemove job _ _ idle
    obtain rfl := Option.some.inj (before.symm.trans eq)
    obtain ⟨e, there, equal⟩ := listed.covered r (listed.registered r mem)
    have removes : ∃ e ∈ found.observers job, found.lock e = found.lock o := by
      refine ⟨e, there, ?_⟩
      rw [← equal, listed.lock r, listed.lock o, same]
    simp only [afterCall, unRegisterObserver_eq, if_pos removes] at last
    cases last

theorem Listed.isMembers (h : Listed job s calls now) : IsMembers job calls now := by
  refine ⟨h.entries, members_nodup calls, ?_⟩
  intro alive
  have everyone : now.observers job = members calls := by
    have entries := h.entries
    rw [List.filter_eq_self.mpr alive,
      List.filter_eq_self.mpr fun e there => alive e (h.listed e there)] at entries
    exact entries
  rw [← everyone] at alive ⊢
  exact notifyAllObservers_eq alive

end

/-- `observer_list_` is an ordered set of the live observers, and every call on it finishes,
exactly as long as no observer has to be removed. -/
theorem observerList_isMembers_iff (s : JobScheduler) (job : Nat) (calls : List ObserverCall) :
    (∃ now, afterCalls job (newJob s job) calls = some now ∧ IsMembers job calls now) ↔
      NothingToRemove s calls := by
  constructor
  · rintro ⟨now, eq, -⟩
    exact nothingToRemove_of_some eq
  · intro idle
    obtain ⟨now, eq, listed⟩ := @listed_of_nothingToRemove job _ _ idle
    exact ⟨now, eq, listed.isMembers⟩

/-- An observer of one job, registered and unregistered again: the `++it` after the `erase`
advances an iterator that is gone. -/
theorem observerList_registered_unregistered :
    ¬ ∃ now, afterCalls 0
        (newJob ⟨{}, 1, 1, 0, fun _ => [], fun _ => 1, fun _ => 1, false⟩ 0)
        [.registerObserver (.other 1), .unRegisterObserver (.other 1)] = some now ∧
      IsMembers 0 [.registerObserver (.other 1), .unRegisterObserver (.other 1)] now := by
  rintro ⟨now, finishes, -⟩
  cases finishes

end Threads.Splitter
