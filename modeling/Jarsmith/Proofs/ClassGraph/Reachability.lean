import Jarsmith.ClassGraph.Reachability

/-!
# What is reached, exactly

`Reaches` is what the worklist computes: the least set that has the entry points and, with a class
of the graph, every class of the graph that it refers to. The worklist keeps three facts: what it
has visited is reached (soundness), every visited class that no longer waits has its references
visited (completeness), and what waits was visited. When nothing waits the visited classes are those
reached (`mem_reachable_iff`).

A path in a graph is one in every graph that has more (`Reaches.mono`).
-/

namespace Jarsmith.ClassGraph

variable {g : ClassGraph} {start visited queue : List Text} {name r : Text}

/-- What is reached from the classes in `start` along references to classes of the graph. -/
inductive Reaches (g : ClassGraph) (start : List Text) : Text → Prop
  | entry {name : Text} : name ∈ start → Reaches g start name
  | reference {d : Definition} {r : Text} : Reaches g start d.name → g.find? d.name = some d →
      r ∈ d.references → g.defines r = true → Reaches g start r

theorem name_of_find? {d : Definition} (h : g.find? name = some d) : d.name = name := by
  simpa using List.find?_some h

theorem defines_iff : g.defines name = true ↔ name ∈ g.names := by
  unfold defines names
  rw [List.any_eq_true, List.mem_map]
  constructor
  · rintro ⟨d, hd, hname⟩
    exact ⟨d, hd, by simpa using hname⟩
  · rintro ⟨d, hd, rfl⟩
    exact ⟨d, hd, by simp⟩

theorem isSome_find?_iff : (g.find? name).isSome = true ↔ name ∈ g.names := by
  rw [← defines_iff]
  simp [find?, defines]

theorem mem_fresh_iff {d : Definition} (h : g.find? name = some d) :
    r ∈ g.fresh visited name ↔ r ∈ d.references ∧ r ∉ visited ∧ g.defines r = true := by
  unfold fresh
  rw [h]
  simp

/-! ### The worklist -/

/-- Every visited class that does not wait has its references visited. -/
def Expanded (g : ClassGraph) (visited queue : List Text) : Prop :=
  ∀ d : Definition, d.name ∈ visited → d.name ∉ queue → g.find? d.name = some d →
    ∀ r ∈ d.references, g.defines r = true → r ∈ visited

theorem expanded_step (h : Expanded g visited (name :: queue)) :
    Expanded g (visited ++ g.fresh visited name) (queue ++ g.fresh visited name) := by
  intro d hd hqueue hfind r hr hdefines
  rw [List.mem_append] at hd
  rw [List.mem_append, not_or] at hqueue
  have hvisited : d.name ∈ visited := hd.resolve_right hqueue.2
  -- The class taken from the queue has its references visited now; for the others nothing changed.
  by_cases hname : d.name = name
  · by_cases hr' : r ∈ visited
    · exact List.mem_append_left _ hr'
    · exact List.mem_append_right _ ((mem_fresh_iff (hname ▸ hfind)).2 ⟨hr, hr', hdefines⟩)
  · refine List.mem_append_left _ (h d hvisited ?_ hfind r hr hdefines)
    exact List.not_mem_cons_of_ne_of_not_mem hname hqueue.1

/-- All that is visited in the end is reached, if what was visited and what waits is. -/
theorem reaches_of_mem_reachFrom (hvisited : ∀ n ∈ visited, g.Reaches start n)
    (hqueue : ∀ n ∈ queue, g.Reaches start n) (h : name ∈ g.reachFrom visited queue) :
    g.Reaches start name := by
  induction visited, queue using reachFrom.induct g with
  | case1 visited =>
    rw [reachFrom] at h
    exact hvisited name h
  | case2 visited next queue new ih =>
    rw [reachFrom] at h
    -- What is new is referred to by `next`, which waited and so is reached.
    have hnew : ∀ n ∈ new, g.Reaches start n := by
      intro n hn
      cases hfind : g.find? next with
      | none => simp [new, fresh, hfind] at hn
      | some d =>
        have hname := name_of_find? hfind
        obtain ⟨hr, -, hdefines⟩ := (mem_fresh_iff hfind).1 hn
        refine .reference (d := d) ?_ (hname ▸ hfind) hr hdefines
        exact hname ▸ hqueue next List.mem_cons_self
    refine ih (fun n hn => ?_) (fun n hn => ?_) h
    · exact (List.mem_append.1 hn).elim (hvisited n) (hnew n)
    · exact (List.mem_append.1 hn).elim (fun hn => hqueue n (List.mem_cons_of_mem _ hn)) (hnew n)

theorem subset_reachFrom (h : name ∈ visited) : name ∈ g.reachFrom visited queue := by
  induction visited, queue using reachFrom.induct g with
  | case1 visited => rwa [reachFrom]
  | case2 visited next queue new ih =>
    rw [reachFrom]
    exact ih (List.mem_append_left _ h)

/-- In the end nothing waits, so that what is visited has its references visited. -/
theorem expanded_reachFrom (h : Expanded g visited queue) :
    Expanded g (g.reachFrom visited queue) [] := by
  induction visited, queue using reachFrom.induct g with
  | case1 visited => rwa [reachFrom]
  | case2 visited next queue new ih =>
    rw [reachFrom]
    exact ih (expanded_step h)

/-! ### Reachability -/

/-- The worklist finds exactly what is reached from the entry points. -/
theorem mem_reachable_iff {entryPoints : List Text} :
    name ∈ g.reachable entryPoints ↔ g.Reaches entryPoints name := by
  unfold reachable
  dsimp only
  constructor
  · intro h
    have hstart : ∀ n ∈ Text.unique entryPoints, g.Reaches entryPoints n :=
      fun n hn => .entry (Text.mem_unique.1 hn)
    exact reaches_of_mem_reachFrom hstart hstart h
  · intro h
    induction h with
    | entry hname => exact subset_reachFrom (Text.mem_unique.2 hname)
    | @reference d r _ hfind hr hdefines ih =>
      refine expanded_reachFrom ?_ d ih (by simp) hfind r hr hdefines
      -- At the start every visited class waits.
      intro d' hd' hnot
      exact absurd hd' hnot

theorem mem_removable_iff {entryPoints : List Text} :
    name ∈ (g.reachability entryPoints).removable ↔
      name ∈ g.names ∧ ¬ g.Reaches entryPoints name := by
  unfold reachability
  rw [List.mem_filter, ← mem_reachable_iff]
  simp

/-- A class is removable exactly if it is one of the graph that is not reached. -/
theorem isRemovable_iff {entryPoints : List Text} :
    (g.reachability entryPoints).isRemovable name = true ↔
      name ∈ g.names ∧ ¬ g.Reaches entryPoints name := by
  unfold Reachability.isRemovable
  rw [List.contains_iff_mem, mem_removable_iff]

/-! ### Graphs with more -/

/-- The graph `g'` has every class of `g`, with the references that it has there and maybe more. -/
def Extends (g g' : ClassGraph) : Prop :=
  ∀ X d, g.find? X = some d → ∃ d', g'.find? X = some d' ∧ d.references ⊆ d'.references

theorem Extends.defines {g' : ClassGraph} (h : Extends g g') (hname : g.defines name = true) :
    g'.defines name = true := by
  rw [defines_iff, ← isSome_find?_iff] at hname ⊢
  obtain ⟨d, hd⟩ := Option.isSome_iff_exists.1 hname
  obtain ⟨d', hd', -⟩ := h name d hd
  exact Option.isSome_iff_exists.2 ⟨d', hd'⟩

/-- With more entry points, more is reached in a graph with more. -/
theorem Reaches.mono {g' : ClassGraph} {start' : List Text} (h : Extends g g')
    (hstart : start ⊆ start') (hname : g.Reaches start name) : g'.Reaches start' name := by
  induction hname with
  | entry hname => exact .entry (hstart hname)
  | @reference d r _ hfind hr hdefines ih =>
    obtain ⟨d', hfind', hsub⟩ := h d.name d hfind
    have hname := name_of_find? hfind'
    exact .reference (hname ▸ ih) (hname ▸ hfind') (hsub hr) (h.defines hdefines)

end Jarsmith.ClassGraph
