import Threads.Concurrency.Run

/-!
# A program inside another program

A program may be made of the blocks of another one and of blocks of its own that
leave the other one alone. A projection forgets what has been added, and takes
every run to a run of the inner program.
-/

namespace Threads.Concurrency

/-- Each block of `Q` is seen as a block of `P` or not seen at all. -/
structure Projection {Shared Local Act Event Shared' Local' Act' Event' Cond : Type}
    (Q : Program Shared Local Act Event Cond) (P : Program Shared' Local' Act' Event' Cond) where
  shared : Shared → Shared'
  thread : Local → Local'
  event : Event → Option Event'
  waitsOn : ∀ l, P.waitsOn (thread l) = Q.waitsOn l
  wake : ∀ l, thread (Q.wake l) = P.wake (thread l)
  block : ∀ {s l a o}, Q.block s l a = some o →
    (∃ b, P.block (shared s) (thread l) b = some
      { shared := shared o.shared
        self := thread o.self
        signals := o.signals
        spawned := o.spawned.map thread
        events := o.events.filterMap event }) ∨
    (shared o.shared = shared s ∧ thread o.self = thread l ∧ o.signals = [] ∧ o.spawned = [] ∧
      o.events.filterMap event = [])

namespace Projection

variable {Shared Local Act Event Shared' Local' Act' Event' Cond : Type}
variable {Q : Program Shared Local Act Event Cond} {P : Program Shared' Local' Act' Event' Cond}
variable (π : Projection Q P)

def entry (e : Nat × Event) : Option (Nat × Event') := (π.event e.2).map (Prod.mk e.1)

/-- What is left of a configuration. -/
def config (c : Config Shared Local Event) : Config Shared' Local' Event' where
  shared := π.shared c.shared
  threads := c.threads.map π.thread
  log := c.log.filterMap π.entry

theorem filterMap_entry (es : List Event) (i : Nat) :
    (es.map (Prod.mk i)).filterMap π.entry = (es.filterMap π.event).map (Prod.mk i) := by
  rw [List.filterMap_map, List.map_filterMap]
  rfl

/-- Events that mean the same inside and outside are counted alike. -/
theorem countP_log {p : Event' → Bool} {q : Event → Bool}
    (same : ∀ e, ((π.event e).map p).getD false = q e) (c : Config Shared Local Event) :
    (π.config c).log.countP (fun e => p e.2) = c.log.countP fun e => q e.2 := by
  unfold config
  rw [List.countP_filterMap]
  apply List.countP_congr
  intro e _
  rw [← same e.2, entry, Option.map_map]
  rfl

theorem getElem?_map {ts : List Local} {i : Nat} {l : Local} (here : ts[i]? = some l) :
    (ts.map π.thread)[i]? = some (π.thread l) := by
  rw [List.getElem?_map, here, Option.map_some]

variable [DecidableEq Cond]

theorem map_wakeIf (m : Cond) (ts : List Local) :
    (ts.map (Q.wakeIf m)).map π.thread = (ts.map π.thread).map (P.wakeIf m) := by
  rw [List.map_map, List.map_map]
  apply List.map_congr_left
  intro l _
  simp only [Function.comp_apply, Program.wakeIf, π.waitsOn]
  split
  · exact π.wake l
  · rfl

theorem wakeOne {m : Cond} {i : Nat} {ts us : List Local} (h : Q.wakeOne m i ts = some us) :
    P.wakeOne m i (ts.map π.thread) = some (us.map π.thread) := by
  have parked : (ts.map π.thread).any (fun l => P.waitsOn l = some m) =
      ts.any (fun l => Q.waitsOn l = some m) := by
    rw [List.any_map]
    simp only [Function.comp_def, π.waitsOn]
  unfold Program.wakeOne at h ⊢
  rw [parked]
  split at h
  · rename_i some
    rw [if_pos some]
    split at h
    · rename_i l here
      split at h
      · rename_i waits
        obtain rfl := Option.some.inj h
        simp only [π.getElem?_map here, π.waitsOn, waits, if_true, List.map_set, π.wake]
      · cases h
    · cases h
  · rename_i none
    obtain rfl := Option.some.inj h
    rw [if_neg none]

theorem deliver {ss : List (Signal Cond)} {cs : List Nat} {ts us : List Local}
    (h : Q.deliver ss cs ts = some us) :
    P.deliver ss cs (ts.map π.thread) = some (us.map π.thread) := by
  induction ss generalizing cs ts with
  | nil =>
    obtain rfl := Option.some.inj h
    rfl
  | cons s ss ih =>
    cases s with
    | notifyAll m =>
      rw [Program.deliver, ← π.map_wakeIf]
      exact ih h
    | notify m =>
      obtain ⟨vs, first, rest⟩ := Option.bind_eq_some_iff.mp h
      rw [Program.deliver, π.wakeOne first]
      exact ih rest

/-- A step is a step of the inner program, or the inner program stays where it is. -/
theorem step {c c' : Config Shared Local Event} {mv : Move Act} (h : Q.Step c mv c') :
    (∃ mv', P.Step (π.config c) mv' (π.config c')) ∨ π.config c' = π.config c := by
  cases h with
  | @spurious i l here waits =>
    have next := Program.Step.spurious (c := π.config c) (π.getElem?_map here)
      (by rwa [π.waitsOn])
    rw [← π.wake] at next
    refine .inl ⟨.spurious i, ?_⟩
    simpa only [config, List.map_set] using next
  | @run i a cs l o ts here fires delivered =>
    rcases π.block fires with ⟨b, block⟩ | ⟨shared, self, silent, childless, quiet⟩
    · have next :=
        Program.Step.run (c := π.config c) (π.getElem?_map here) block (π.deliver delivered)
      refine .inl ⟨.run i b cs, ?_⟩
      simpa only [config, List.map_append, List.map_set, List.filterMap_append, filterMap_entry]
        using next
    · right
      rw [silent] at delivered
      obtain rfl := Option.some.inj delivered
      obtain ⟨bound, there⟩ := List.getElem?_eq_some_iff.mp (π.getElem?_map here)
      have same : (c.threads.map π.thread).set i (π.thread l) = c.threads.map π.thread := by
        rw [← there]
        exact List.set_getElem_self bound
      simp only [config, childless, List.append_nil, List.map_set, List.filterMap_append,
        filterMap_entry, quiet, List.map_nil, shared, self]
      rw [same]

theorem spurious_step {c c' : Config Shared Local Event} {i : Nat}
    (h : Q.Step c (.spurious i) c') : P.Step (π.config c) (.spurious i) (π.config c') := by
  cases h with
  | @spurious _ l here waits =>
    have next := Program.Step.spurious (c := π.config c) (π.getElem?_map here)
      (by rwa [π.waitsOn])
    rw [← π.wake] at next
    simpa only [config, List.map_set] using next

/-- A step that runs a block of the inner program is a step of its own. -/
theorem run_step {c : Config Shared Local Event} {i : Nat} {cs : List Nat} {l : Local}
    {o : Outcome Shared Local Local Event Cond} {b : Act'} {ts : List Local}
    (here : c.threads[i]? = some l)
    (block : P.block (π.shared c.shared) (π.thread l) b = some
      { shared := π.shared o.shared
        self := π.thread o.self
        signals := o.signals
        spawned := o.spawned.map π.thread
        events := o.events.filterMap π.event })
    (delivered : Q.deliver o.signals cs c.threads = some ts) :
    P.Step (π.config c) (.run i b cs)
      (π.config ⟨o.shared, ts.set i o.self ++ o.spawned, c.log ++ o.events.map (Prod.mk i)⟩) := by
  have next := Program.Step.run (c := π.config c) (π.getElem?_map here) block (π.deliver delivered)
  simpa only [config, List.map_append, List.map_set, List.filterMap_append, filterMap_entry]
    using next

/-- What holds of every configuration the inner program reaches holds along the runs
of the whole. -/
theorem reach {ok : Config Shared Local Event → Move Act → Prop} {c₀ c : Config Shared Local Event}
    (h : Q.Run ok c₀ c) : P.Reach (π.config c₀) (π.config c) := by
  induction h with
  | refl => exact .refl
  | tail _ _ next ih =>
    rcases π.step next with ⟨mv', inner⟩ | same
    · exact .tail ih trivial inner
    · rwa [same]

end Projection

end Threads.Concurrency
