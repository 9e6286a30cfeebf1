import Mathlib

/-!
# `EpubSectionSplitter`

The names of the files that `Split` writes, and what it reports of them. `EpubSplitter` is
known only by the number of sections it finds in a book and by whether it writes each of
them.
-/

namespace Threads.Splitter

/-! ## The code -/

/-- `SplitterStrategy::State` -/
inductive SplitterStrategy.State where
  | ok
  | error
  deriving DecidableEq, Repr

/-- An `EpubSplitter` on one book; `split i name` is the result of its `Split`. -/
structure EpubSplitter where
  sectionCount : Int
  split : Int → String → Bool

/-- A byte of a `std::string` is the character with its number. -/
def makePartialName (bookPath : String) (index : Int) (bookSuffix : String) : String :=
  bookPath ++ "_" ++ toString index ++ bookSuffix

/-- The `output_name` of a section. -/
def outputName (bookPath : String) (index : Int) : String :=
  makePartialName bookPath index "_.epub"

/-- `EpubSectionSplitter::Split` when it is over: `output_paths`, the calls it has made of
`EpubSplitter::Split`, and its result. -/
structure SplitReport where
  outputPaths : List (String × SplitterStrategy.State)
  attempted : List (Int × String)
  returned : Bool
  deriving DecidableEq, Repr

def EpubSplitter.state (epub : EpubSplitter) (i : Int) (name : String) : SplitterStrategy.State :=
  if epub.split i name then .ok else .error

/-- The loop at section `i`, with `left` sections to go. -/
def splitSections (epub : EpubSplitter) (bookPath : String) :
    Nat → Int → List (String × SplitterStrategy.State) → List (Int × String) → SplitReport
  | 0, _, outputPaths, attempted => ⟨outputPaths, attempted, true⟩
  | left + 1, i, outputPaths, attempted =>
    let name := outputName bookPath i
    let state := epub.state i name
    if state = .error then ⟨outputPaths ++ [(name, state)], attempted ++ [(i, name)], false⟩
    else
      splitSections epub bookPath left (i + 1) (outputPaths ++ [(name, state)])
        (attempted ++ [(i, name)])

def split (epub : String → EpubSplitter) (bookPath : String)
    (outputPaths : List (String × SplitterStrategy.State)) : SplitReport :=
  if (epub bookPath).sectionCount ≤ 0 then ⟨outputPaths, [], false⟩
  else
    splitSections (epub bookPath) bookPath (epub bookPath).sectionCount.toNat 0 outputPaths []

/-! ## Names numbered in decimal -/

/-- What stands behind the last separator, and what stands in front of it. -/
theorem append_cons_inj_of_last {α : Type} {x y u v : List α} {a : α} (left : a ∉ u)
    (right : a ∉ v) (h : x ++ a :: u = y ++ a :: v) : x = y ∧ u = v := by
  rcases List.append_eq_append_iff.mp h with ⟨c, rfl, rest⟩ | ⟨c, rfl, rest⟩
  · cases c with
    | nil => exact ⟨(List.append_nil x).symm, (List.cons.inj rest).2⟩
    | cons b c =>
      have later : a ∈ u := by
        rw [(List.cons.inj rest).2]
        exact List.mem_append_right c List.mem_cons_self
      exact absurd later left
  · cases c with
    | nil => exact ⟨List.append_nil y, (List.cons.inj rest).2.symm⟩
    | cons b c =>
      have later : a ∈ v := by
        rw [(List.cons.inj rest).2]
        exact List.mem_append_right c List.mem_cons_self
      exact absurd later right

theorem underscore_notMem_repr (i : Int) : '_' ∉ i.repr.toList := by
  rw [Int.repr_eq_if]
  split
  · rw [Nat.toList_repr]
    exact Nat.underscore_not_in_toDigits
  · rw [String.toList_append, List.mem_append, not_or, Nat.toList_repr]
    exact ⟨by decide, Nat.underscore_not_in_toDigits⟩

/-- The suffix is known, and the number in front of it has no underscore. -/
theorem makePartialName_inj {p q suffix : String} {i j : Int}
    (h : makePartialName p i suffix = makePartialName q j suffix) : p = q ∧ i = j := by
  have lists := congrArg String.toList h
  unfold makePartialName at lists
  simp only [String.toList_append, Int.toString_eq_repr] at lists
  have unsuffixed := List.append_cancel_right lists
  have separated : p.toList ++ '_' :: i.repr.toList = q.toList ++ '_' :: j.repr.toList := by
    simpa using unsuffixed
  obtain ⟨paths, numbers⟩ := append_cons_inj_of_last (underscore_notMem_repr i)
    (underscore_notMem_repr j) separated
  exact ⟨String.toList_inj.mp paths, Int.repr_injective (String.toList_inj.mp numbers)⟩

/-! ## What `Split` reports -/

/-- `n` sections from `i` on. -/
def sectionsFrom : Int → Nat → List Int
  | _, 0 => []
  | i, n + 1 => i :: sectionsFrom (i + 1) n

theorem sectionsFrom_eq (i : Int) (n : Nat) :
    sectionsFrom i n = (List.range n).map fun k : Nat => i + k := by
  induction n generalizing i with
  | zero => rfl
  | succ n ih =>
    rw [sectionsFrom, ih, List.range_succ_eq_map, List.map_cons, List.map_map]
    congr 1
    · simp
    · apply List.map_congr_left
      intro k _
      dsimp only [Function.comp]
      omega

def okEntry (bookPath : String) (i : Int) : String × SplitterStrategy.State :=
  (outputName bookPath i, .ok)

def call (bookPath : String) (i : Int) : Int × String := (i, outputName bookPath i)

def EpubSplitter.writes (epub : EpubSplitter) (bookPath : String) (i : Int) : Bool :=
  epub.split i (outputName bookPath i)

/-- The first section that is not written. -/
def EpubSplitter.firstFailing (epub : EpubSplitter) (bookPath : String) : Option Nat :=
  (List.range epub.sectionCount.toNat).find? fun i => !epub.writes bookPath i

section

variable {epub : EpubSplitter} {bookPath : String}

theorem splitSections_ok {left : Nat} {i : Int}
    (all : ∀ k ∈ sectionsFrom i left, epub.writes bookPath k = true)
    (outputPaths : List (String × SplitterStrategy.State)) (attempted : List (Int × String)) :
    splitSections epub bookPath left i outputPaths attempted =
      ⟨outputPaths ++ (sectionsFrom i left).map (okEntry bookPath),
        attempted ++ (sectionsFrom i left).map (call bookPath), true⟩ := by
  induction left generalizing i outputPaths attempted with
  | zero => simp only [splitSections, sectionsFrom, List.map_nil, List.append_nil]
  | succ left ih =>
    have written : epub.state i (outputName bookPath i) = .ok := if_pos (all i List.mem_cons_self)
    have rest := fun k mem => all k (List.mem_cons_of_mem i mem)
    simp only [splitSections, written, reduceCtorEq, if_false, ih rest, sectionsFrom,
      List.map_cons, List.append_assoc, List.singleton_append]
    rfl

theorem splitSections_error {d left : Nat} {i : Int}
    (before : ∀ k ∈ sectionsFrom i d, epub.writes bookPath k = true)
    (fails : epub.writes bookPath (i + d) = false) (within : d < left)
    (outputPaths : List (String × SplitterStrategy.State)) (attempted : List (Int × String)) :
    splitSections epub bookPath left i outputPaths attempted =
      ⟨outputPaths ++ (sectionsFrom i d).map (okEntry bookPath) ++
          [(outputName bookPath (i + d), .error)],
        attempted ++ (sectionsFrom i (d + 1)).map (call bookPath), false⟩ := by
  obtain ⟨left, rfl⟩ := Nat.exists_eq_add_one_of_ne_zero (Nat.ne_zero_of_lt within)
  induction d generalizing i left outputPaths attempted with
  | zero =>
    simp only [Nat.cast_zero, Int.add_zero] at fails ⊢
    have refused : epub.state i (outputName bookPath i) = .error := by
      unfold EpubSplitter.writes at fails
      unfold EpubSplitter.state
      rw [fails]
      rfl
    simp only [splitSections, refused, if_true, sectionsFrom, List.map_nil, List.append_nil,
      List.map_cons]
    rfl
  | succ d ih =>
    have written : epub.state i (outputName bookPath i) = .ok :=
      if_pos (before i List.mem_cons_self)
    have rest := fun k mem => before k (List.mem_cons_of_mem i mem)
    have shift : i + ((d + 1 : Nat) : Int) = i + 1 + (d : Int) := by omega
    rw [shift] at fails ⊢
    obtain ⟨left, rfl⟩ := Nat.exists_eq_add_one_of_ne_zero (by omega : left ≠ 0)
    rw [splitSections]
    simp only [written, reduceCtorEq, if_false]
    rw [ih rest fails _ _ left (by omega)]
    simp only [sectionsFrom, List.map_cons, List.append_assoc, List.singleton_append]
    rfl

end

/-- The sections that were written are reported in order behind what was in `output_paths`,
and the one that failed behind them; no other is attempted. -/
structure Reports (epub : EpubSplitter) (bookPath : String)
    (prior : List (String × SplitterStrategy.State)) (r : SplitReport) : Prop where
  failed : ∀ j, epub.firstFailing bookPath = some j →
    r.outputPaths = prior ++ ((List.range j).map fun i : Nat => okEntry bookPath i) ++
      [(outputName bookPath j, .error)] ∧
    r.attempted = (List.range (j + 1)).map fun i : Nat => call bookPath i
  finished : epub.firstFailing bookPath = none →
    r.outputPaths =
      prior ++ ((List.range epub.sectionCount.toNat).map fun i : Nat => okEntry bookPath i) ∧
    r.attempted = (List.range epub.sectionCount.toNat).map fun i : Nat => call bookPath i
  returned : r.returned = true ↔ 0 < epub.sectionCount ∧
    r.outputPaths =
      prior ++ ((List.range epub.sectionCount.toNat).map fun i : Nat => okEntry bookPath i)

theorem map_sectionsFrom {β : Type} (f : Int → β) (n : Nat) :
    (sectionsFrom 0 n).map f = (List.range n).map fun i : Nat => f i := by
  rw [sectionsFrom_eq, List.map_map]
  apply List.map_congr_left
  intro k _
  dsimp only [Function.comp]
  rw [Int.zero_add]

theorem writes_sectionsFrom {epub : EpubSplitter} {bookPath : String} {n : Nat}
    (all : ∀ k : Nat, k < n → epub.writes bookPath k = true) :
    ∀ i ∈ sectionsFrom 0 n, epub.writes bookPath i = true := by
  intro i mem
  rw [sectionsFrom_eq] at mem
  obtain ⟨k, within, rfl⟩ := List.mem_map.mp mem
  rw [Int.zero_add]
  exact all k (List.mem_range.mp within)

theorem error_notMem_okEntries (bookPath name : String) (n : Nat) :
    (name, SplitterStrategy.State.error) ∉
      (List.range n).map fun i : Nat => okEntry bookPath i := by
  intro mem
  obtain ⟨i, -, same⟩ := List.mem_map.mp mem
  cases (Prod.mk.inj same).2

theorem reports_empty {epub : EpubSplitter} {bookPath : String} (none : epub.sectionCount ≤ 0)
    (prior : List (String × SplitterStrategy.State)) :
    Reports epub bookPath prior ⟨prior, [], false⟩ := by
  have zero : epub.sectionCount.toNat = 0 := Int.toNat_of_nonpos none
  refine ⟨?_, ?_, ?_⟩
  · intro j failing
    rw [EpubSplitter.firstFailing, zero] at failing
    cases failing
  · intro _
    rw [zero]
    exact ⟨(List.append_nil prior).symm, rfl⟩
  · constructor
    · intro yes
      cases yes
    · rintro ⟨some, -⟩
      exact absurd none (Int.not_le.mpr some)

theorem reports_finished {epub : EpubSplitter} {bookPath : String} (some : 0 < epub.sectionCount)
    (complete : epub.firstFailing bookPath = none)
    (prior : List (String × SplitterStrategy.State)) :
    Reports epub bookPath prior
      (splitSections epub bookPath epub.sectionCount.toNat 0 prior []) := by
  have all := List.find?_range_eq_none.mp complete
  have written := writes_sectionsFrom fun k within => by simpa using all k within
  rw [splitSections_ok written, map_sectionsFrom, map_sectionsFrom]
  refine ⟨?_, fun _ => ⟨rfl, rfl⟩, ?_⟩
  · intro j failing
    rw [complete] at failing
    cases failing
  · exact ⟨fun _ => ⟨some, rfl⟩, fun _ => rfl⟩

theorem reports_failed {epub : EpubSplitter} {bookPath : String} {j : Nat}
    (first : epub.firstFailing bookPath = some j)
    (prior : List (String × SplitterStrategy.State)) :
    Reports epub bookPath prior
      (splitSections epub bookPath epub.sectionCount.toNat 0 prior []) := by
  obtain ⟨fails, within, before⟩ := List.find?_range_eq_some.mp first
  have written := writes_sectionsFrom fun k earlier => by simpa using before k earlier
  have refused : epub.writes bookPath (0 + (j : Int)) = false := by
    simpa using fails
  rw [splitSections_error written refused (List.mem_range.mp within), map_sectionsFrom,
    map_sectionsFrom, Int.zero_add]
  refine ⟨?_, ?_, ?_⟩
  · intro k failing
    obtain rfl := Option.some.inj (first.symm.trans failing)
    exact ⟨rfl, rfl⟩
  · intro complete
    rw [first] at complete
    cases complete
  · constructor
    · intro yes
      cases yes
    · rintro ⟨-, same⟩
      rw [List.append_assoc] at same
      have entries := List.append_cancel_left same
      have last : (outputName bookPath j, SplitterStrategy.State.error) ∈
          (List.range epub.sectionCount.toNat).map fun i : Nat => okEntry bookPath i := by
        rw [← entries]
        exact List.mem_append_right _ List.mem_cons_self
      exact absurd last (error_notMem_okEntries _ _ _)

/-- What `Split` reports is what was written, whatever `EpubSplitter` does. -/
theorem split_reports (epub : String → EpubSplitter) (bookPath : String)
    (prior : List (String × SplitterStrategy.State)) :
    Reports (epub bookPath) bookPath prior (split epub bookPath prior) := by
  unfold split
  by_cases none : (epub bookPath).sectionCount ≤ 0
  · rw [if_pos none]
    exact reports_empty none prior
  · rw [if_neg none]
    cases first : (epub bookPath).firstFailing bookPath with
    | none => exact reports_finished (Int.not_le.mp none) first prior
    | some j => exact reports_failed first prior

/-! ## Files of different jobs -/

/-- The files that a call of `Split` writes or tries to write. -/
def SplitReport.files (r : SplitReport) : List String := r.attempted.map Prod.snd

theorem split_files (epub : String → EpubSplitter) (bookPath : String)
    (prior : List (String × SplitterStrategy.State)) :
    ∃ n, (split epub bookPath prior).files =
      (List.range n).map fun i : Nat => outputName bookPath i := by
  have report := split_reports epub bookPath prior
  have names (n : Nat) : ((List.range n).map fun i : Nat => call bookPath i).map Prod.snd =
      (List.range n).map fun i : Nat => outputName bookPath i := List.map_map
  unfold SplitReport.files
  cases first : (epub bookPath).firstFailing bookPath with
  | none => exact ⟨_, by rw [(report.finished first).2, names]⟩
  | some j => exact ⟨_, by rw [(report.failed j first).2, names]⟩

/-- A name tells the book and the section, so no two sections of one book and no two books
share a file. -/
theorem outputName_inj :
    (∀ (p q : String) (i j : Int), outputName p i = outputName q j → p = q ∧ i = j) ∧
      ∀ (epub : String → EpubSplitter) (p q : String)
        (prior prior' : List (String × SplitterStrategy.State)),
        (split epub p prior).files.Nodup ∧
          (p ≠ q → List.Disjoint (split epub p prior).files (split epub q prior').files) := by
  constructor
  · intro p q i j
    exact makePartialName_inj
  · intro epub p q prior prior'
    obtain ⟨n, left⟩ := split_files epub p prior
    obtain ⟨m, right⟩ := split_files epub q prior'
    rw [left, right]
    constructor
    · apply List.nodup_range.map
      intro i j same
      exact Int.ofNat.inj (makePartialName_inj same).2
    · intro differ name here there
      obtain ⟨i, -, rfl⟩ := List.mem_map.mp here
      obtain ⟨j, -, same⟩ := List.mem_map.mp there
      exact differ (makePartialName_inj same).1.symm

end Threads.Splitter
