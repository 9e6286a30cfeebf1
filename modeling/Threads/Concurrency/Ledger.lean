import Mathlib.Data.List.Nodup

/-!
# A queue with its history

What a FIFO queue is for: everything pushed is, in the order it was pushed, first
what has been taken off the head, each item with what became of it, and then what
is still queued. A ledger cannot be built any other way.
-/

namespace Threads.Concurrency

structure Ledger (Item Fate : Type) where
  pushed : List Item
  taken : List (Item × Fate)
  queue : List Item
  balanced : pushed = taken.map Prod.fst ++ queue

namespace Ledger

variable {Item Fate : Type}

def empty : Ledger Item Fate := ⟨[], [], [], rfl⟩

/-- Items leave at the head, with their fates, and others join at the tail. -/
structure Advances (l l' : Ledger Item Fate) (fates : List (Item × Fate)) (joined : List Item) :
    Prop where
  pushed : l'.pushed = l.pushed ++ joined
  taken : l'.taken = l.taken ++ fates
  queue : fates.map Prod.fst ++ l'.queue = l.queue ++ joined

/-- A ledger that advances: the balance is kept by construction. -/
def advance (l : Ledger Item Fate) (fates : List (Item × Fate)) (joined rest : List Item)
    (h : fates.map Prod.fst ++ rest = l.queue ++ joined) : Ledger Item Fate where
  pushed := l.pushed ++ joined
  taken := l.taken ++ fates
  queue := rest
  balanced := by
    rw [List.map_append, List.append_assoc, h, l.balanced, List.append_assoc]

theorem taken_prefix (l : Ledger Item Fate) : l.taken.map Prod.fst <+: l.pushed :=
  ⟨_, l.balanced.symm⟩

/-- Items pushed once are taken once. -/
theorem taken_nodup (l : Ledger Item Fate) (once : l.pushed.Nodup) :
    (l.taken.map Prod.fst).Nodup :=
  once.sublist l.taken_prefix.sublist

theorem fate_unique (l : Ledger Item Fate) (once : l.pushed.Nodup) {a : Item} {f g : Fate}
    (hf : (a, f) ∈ l.taken) (hg : (a, g) ∈ l.taken) : f = g := by
  have same := List.inj_on_of_nodup_map (l.taken_nodup once) hf hg rfl
  exact congrArg Prod.snd same

/-- A pushed item is still queued or has met its fate. -/
theorem queued_or_taken (l : Ledger Item Fate) {a : Item} (h : a ∈ l.pushed) :
    a ∈ l.queue ∨ ∃ f, (a, f) ∈ l.taken := by
  rw [l.balanced, List.mem_append] at h
  rcases h with taken | queued
  · obtain ⟨⟨b, f⟩, hf, rfl⟩ := List.mem_map.mp taken
    exact .inr ⟨f, hf⟩
  · exact .inl queued

end Ledger

end Threads.Concurrency
