import Mathlib.Data.List.Forall2
import Mathlib.Data.List.Perm.Subperm
import Mathlib.Data.Set.Basic
import Mathlib.Logic.Function.Iterate
import Mathlib.Order.Bounds.Defs
import Jarsmith.Proofs.ClassGraph.Reachability

/-!
# Reachability as a closure

A set is `Closed` in a graph if with a class of the graph it has every class of the graph to which
that one refers. What is reached from entry points is the least closed set that has them, and is
found after a bounded number of rounds: **`reachability_isLeast`**.

A round takes one class from those that wait (`expand`). A class is visited once, when it begins to
wait, so that there are as many rounds as classes reached (`exists_iterate_expand`), and these are
entry points or classes of the graph (`length_reachable_le`).

The closure knows of a graph only which classes it has and to which others each refers. So it is the
same for entry points in another order and for references in another order (`Reordered`).
-/

namespace Jarsmith.ClassGraph

variable {g g' : ClassGraph} {visited queue entryPoints : List Text} {X : Text}

/-! ### Rounds -/

/-- One round of the worklist: the class that waits first is taken; those of its references that
were not visited are visited now, and wait. -/
def expand (g : ClassGraph) : List Text × List Text → List Text × List Text
  | (visited, []) => (visited, [])
  | (visited, name :: queue) =>
    (visited ++ g.fresh visited name, queue ++ g.fresh visited name)

/-- A round is needed for each class that waits at the beginning, and for each that is visited
later. -/
theorem exists_iterate_expand (g : ClassGraph) (visited queue : List Text) :
    ∃ rounds, rounds + visited.length = (g.reachFrom visited queue).length + queue.length ∧
      g.expand^[rounds] (visited, queue) = (g.reachFrom visited queue, []) := by
  induction visited, queue using reachFrom.induct g with
  | case1 visited =>
    rw [reachFrom]
    exact ⟨0, by rw [List.length_nil]; omega, rfl⟩
  | case2 visited name queue new ih =>
    obtain ⟨rounds, hcount, hiterate⟩ := ih
    rw [reachFrom]
    refine ⟨rounds + 1, ?_, ?_⟩
    · rw [List.length_append, List.length_append] at hcount
      show rounds + 1 + _ = (g.reachFrom (visited ++ new) (queue ++ new)).length + _
      rw [List.length_cons]
      omega
    · rw [Function.iterate_succ_apply]
      exact hiterate

/-- What is visited is visited once. -/
theorem nodup_reachFrom (h : visited.Nodup) : (g.reachFrom visited queue).Nodup := by
  induction visited, queue using reachFrom.induct g with
  | case1 visited => rwa [reachFrom]
  | case2 visited name queue new ih =>
    rw [reachFrom]
    refine ih (List.nodup_append.2 ⟨h, nodup_fresh g visited name, ?_⟩)
    rintro r hvisited _ hnew rfl
    exact (mem_fresh hnew).1 hvisited

theorem nodup_reachable (g : ClassGraph) (entryPoints : List Text) :
    (g.reachable entryPoints).Nodup := nodup_reachFrom (Text.nodup_unique entryPoints)

/-- Only entry points and classes of the graph are reached, each once. -/
theorem length_reachable_le (g : ClassGraph) (entryPoints : List Text) :
    (g.reachable entryPoints).length ≤ entryPoints.length + g.size := by
  have hsubset : g.reachable entryPoints ⊆ entryPoints ++ g.names := by
    intro X hX
    rw [List.mem_append]
    cases mem_reachable_iff.1 hX with
    | entry hentry => exact .inl hentry
    | reference _ _ _ hdefines => exact .inr (defines_iff.1 hdefines)
  have hle := ((nodup_reachable g entryPoints).subperm hsubset).length_le
  have hsize : g.names.length = g.size := List.length_map _
  rw [List.length_append] at hle
  omega

/-! ### The closure -/

/-- With a class of the graph the set has every class of the graph to which that one refers. -/
def Closed (g : ClassGraph) (S : Set Text) : Prop :=
  ∀ d, g.find? d.name = some d → d.name ∈ S → ∀ r ∈ d.references, r ∈ g.names → r ∈ S

/-- A closed set has whatever is reached from what it has. -/
theorem Reaches.mem_of_closed {start : List Text} {S : Set Text} (hS : g.Closed S)
    (hstart : ∀ X ∈ start, X ∈ S) (hX : g.Reaches start X) : X ∈ S := by
  induction hX with
  | entry hentry => exact hstart _ hentry
  | @reference d r _ hfind hr hdefines ih => exact hS d hfind ih r hr (defines_iff.1 hdefines)

theorem closed_setOf_reaches (g : ClassGraph) (start : List Text) :
    g.Closed {X | g.Reaches start X} := by
  intro d hfind hd r hr hnames
  exact .reference hd hfind hr (defines_iff.2 hnames)

theorem isLeast_reachable (g : ClassGraph) (entryPoints : List Text) :
    IsLeast {S : Set Text | (∀ X ∈ entryPoints, X ∈ S) ∧ g.Closed S}
      {X | X ∈ g.reachable entryPoints} := by
  have hset : {X | X ∈ g.reachable entryPoints} = {X | g.Reaches entryPoints X} :=
    Set.ext fun _ => mem_reachable_iff
  rw [hset]
  refine ⟨⟨fun X hX => .entry hX, closed_setOf_reaches g entryPoints⟩, ?_⟩
  rintro S ⟨hentry, hclosed⟩ X hX
  exact hX.mem_of_closed hclosed hentry

/-! ### Another order -/

/-- The graphs have the same classes, each with the same references, in whatever order these are. -/
def Reordered (g g' : ClassGraph) : Prop :=
  List.Forall₂ (fun d d' : Definition =>
    d'.name = d.name ∧ ∀ r, r ∈ d'.references ↔ r ∈ d.references) g.definitions g'.definitions

namespace Reordered

theorem symm (h : Reordered g g') : Reordered g' g := by
  refine h.flip.imp ?_
  rintro d' d ⟨hname, hreferences⟩
  exact ⟨hname.symm, fun r => (hreferences r).symm⟩

theorem toExtends (h : Reordered g g') : Extends g g' := by
  intro X d hd
  unfold Reordered at h
  unfold find? at hd ⊢
  generalize g.definitions = definitions at h hd
  generalize g'.definitions = definitions' at h
  -- In both lists the first definition of the name is at the same place.
  induction h with
  | nil => simp at hd
  | @cons e e' definitions definitions' hsame _ ih =>
    rw [List.find?_cons] at hd ⊢
    rw [hsame.1]
    by_cases hX : e.name = X
    · rw [decide_eq_true hX] at hd ⊢
      obtain rfl := Option.some.inj hd
      exact ⟨e', rfl, fun r => (hsame.2 r).2⟩
    · rw [decide_eq_false hX] at hd ⊢
      exact ih hd

theorem mem_names_iff (h : Reordered g g') : X ∈ g'.names ↔ X ∈ g.names := by
  rw [← defines_iff, ← defines_iff]
  exact ⟨h.symm.toExtends.defines, h.toExtends.defines⟩

theorem mem_reachable_iff {entryPoints' : List Text} (h : Reordered g g')
    (hentry : ∀ X, X ∈ entryPoints' ↔ X ∈ entryPoints) :
    X ∈ g'.reachable entryPoints' ↔ X ∈ g.reachable entryPoints := by
  rw [ClassGraph.mem_reachable_iff, ClassGraph.mem_reachable_iff]
  constructor
  · exact Reaches.mono h.symm.toExtends fun X => (hentry X).1
  · exact Reaches.mono h.toExtends fun X => (hentry X).2

end Reordered

/-! ### Reachability -/

/-- The entry points that no archive defines are told in their order, as often as they are given. -/
theorem unresolved_reachability (g : ClassGraph) (entryPoints : List Text) :
    (g.reachability entryPoints).unresolved = entryPoints.filter (· ∉ g.names) := by
  refine List.filter_congr fun X _ => ?_
  rw [Bool.eq_iff_iff, Bool.not_eq_true', decide_eq_true_iff, ← defines_iff, Bool.not_eq_true]

/-- **What is reached.** The rounds come to an end where nothing waits. What was visited then is the
least set that has the entry points and is closed in the graph; the other classes of the graph can
be removed. Neither set depends on the order of the entry points or on that of references. -/
theorem reachability_isLeast (g : ClassGraph) (entryPoints : List Text) :
    (∃ rounds ≤ entryPoints.length + g.size,
      g.expand^[rounds] (Text.unique entryPoints, Text.unique entryPoints) =
        ((g.reachability entryPoints).reachable, [])) ∧
    IsLeast {S : Set Text | (∀ X ∈ entryPoints, X ∈ S) ∧ g.Closed S}
      {X | X ∈ (g.reachability entryPoints).reachable} ∧
    {X | X ∈ (g.reachability entryPoints).removable} =
      {X | X ∈ g.names} \ {X | X ∈ (g.reachability entryPoints).reachable} ∧
    (g.reachability entryPoints).unresolved = entryPoints.filter (· ∉ g.names) ∧
    ∀ (g' : ClassGraph) (entryPoints' : List Text), Reordered g g' →
      (∀ X, X ∈ entryPoints' ↔ X ∈ entryPoints) → ∀ X,
        (X ∈ (g'.reachability entryPoints').reachable ↔
          X ∈ (g.reachability entryPoints).reachable) ∧
        (X ∈ (g'.reachability entryPoints').removable ↔
          X ∈ (g.reachability entryPoints).removable) := by
  refine ⟨?_, isLeast_reachable g entryPoints, ?_, unresolved_reachability g entryPoints, ?_⟩
  · obtain ⟨rounds, hcount, hiterate⟩ :=
      exists_iterate_expand g (Text.unique entryPoints) (Text.unique entryPoints)
    have hrounds : rounds = (g.reachable entryPoints).length := Nat.add_right_cancel hcount
    exact ⟨rounds, hrounds ▸ length_reachable_le g entryPoints, hiterate⟩
  · ext X
    show X ∈ (g.reachability entryPoints).removable ↔ X ∈ g.names ∧ X ∉ g.reachable entryPoints
    rw [mem_removable_iff, mem_reachable_iff]
  · intro g' entryPoints' hg hentry X
    have hreachable := hg.mem_reachable_iff (X := X) hentry
    refine ⟨hreachable, ?_⟩
    rw [mem_removable_iff, mem_removable_iff, hg.mem_names_iff, ← mem_reachable_iff, hreachable,
      mem_reachable_iff]

/-- Classes that refer to themselves, to each other and to classes that are not there; `order` puts
references in an order. -/
def Sample.cyclic (order : List Text → List Text) : ClassGraph where
  definitions := [⟨"A", "/a", order ["B", "A", "Z"]⟩, ⟨"B", "/a", order ["A", "C"]⟩,
    ⟨"C", "/b", []⟩, ⟨"D", "/b", order ["A", "Z"]⟩]
  duplicates := []

/-- From `A` the classes `B` and `C` are reached, and `D` can be removed. -/
theorem reachability_isLeast_of_cyclic :
    IsLeast {S : Set Text |
        (∀ X ∈ [("A" : Text), "Q", "A"], X ∈ S) ∧ (Sample.cyclic id).Closed S}
      {X | X ∈ [("A" : Text), "Q", "B", "C"]} ∧
    ∀ X, X ∈ ((Sample.cyclic List.reverse).reachability ["Q", "A"]).removable ↔ X = "D" := by
  obtain ⟨-, hleast, -, -, horder⟩ :=
    reachability_isLeast (Sample.cyclic id) ["A", "Q", "A"]
  have hreachable : ((Sample.cyclic id).reachability ["A", "Q", "A"]).reachable =
      [("A" : Text), "Q", "B", "C"] := by decide +kernel
  have hremovable : ((Sample.cyclic id).reachability ["A", "Q", "A"]).removable =
      [("D" : Text)] := by decide +kernel
  rw [hreachable] at hleast
  refine ⟨hleast, fun X => ?_⟩
  have hsame : Reordered (Sample.cyclic id) (Sample.cyclic List.reverse) := by
    have hreverse (name : Text) (archive : Path) (references : List Text) :
        let d := Definition.mk name archive references
        let d' := Definition.mk name archive references.reverse
        d'.name = d.name ∧ ∀ r, r ∈ d'.references ↔ r ∈ d.references :=
      ⟨rfl, fun _ => List.mem_reverse⟩
    exact .cons (hreverse "A" _ _) (.cons (hreverse "B" _ _) (.cons (hreverse "C" _ [])
      (.cons (hreverse "D" _ _) .nil)))
  have hentry (X : Text) : X ∈ [("Q" : Text), "A"] ↔ X ∈ [("A" : Text), "Q", "A"] := by
    simp only [List.mem_cons, List.not_mem_nil, or_false]
    tauto
  rw [(horder _ _ hsame hentry X).2, hremovable, List.mem_singleton]

end Jarsmith.ClassGraph
